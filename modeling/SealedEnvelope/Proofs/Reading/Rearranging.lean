import SealedEnvelope.Key.VerificationMethod
import SealedEnvelope.Proofs.Reading.Accepted
import SealedEnvelope.Proofs.Reading.Envelope
import SealedEnvelope.Proofs.Reading.Layout

/-!
# Envelopes and verification methods in every layout

Who writes an envelope or a verification method may order and spell out its members as he likes.
For each of the records this is a matter of its fields alone: they store what they read in parts of
their own (`orderly`), and what may be missing may also be there and say nothing
(`Recipient.void_header`, `Envelope.void_null`, `VerificationMethod.void_null`).

An envelope has a list of records inside of it.  So its layout allows changes of a recipient in the
list, and a recipient with a member twice is as much a fault as an envelope with one
(`Envelope.Doubled`).

All of this is about trees.  As what is read of a text is read of its tree
(`Envelope.ofBytes_eq_ok_iff`, `VerificationMethod.ofText_eq_ok_iff`), it is about texts as well
(`reading_ignores_layout`).
-/

namespace SealedEnvelope

open Json (Reader Tree Schema Field Layout)

namespace Recipient

theorem orderly : schema.Orderly where
  positional := rfl
  keep := rfl
  nodup := by decide
  commutes := by
    intro field hfield other hother hne
    simp only [schema, List.mem_cons, List.not_mem_nil, or_false] at hfield hother
    rcases hfield with rfl | rfl <;> rcases hother with rfl | rfl <;>
      first | exact absurd rfl hne | exact Field.commutes_of_store fun _ _ _ => rfl

/-- A recipient's members may come in any order, and its missing header is empty. -/
def layout : Layout MemberFault Parts Recipient where
  schema := schema
  optional := []
  filler := fun _ => .object [] true
  inside := fun _ _ _ => False

/-- An empty header says no more than a missing one, where an object may stand at all. -/
theorem void_header (below : Nat) : schema.Void (below + 1)
    (.of "header" Header.reader fun header parts => { parts with header := some header },
      .object [] true) := by
  refine Schema.void_of_owns owns.1
    (Field.of_read_eq_ok_iff.2 ⟨.empty, Header.reader_eq_ok_iff.2 rfl, rfl⟩) ?_
  rintro ⟨header, key⟩ hblank
  obtain rfl : header = none := hblank
  rfl

theorem layout_sound (below : Nat) : layout.Sound (below + 1) where
  orderly := orderly
  optional := nofun
  filler := by
    intro field hfield
    simp only [layout, schema, List.mem_cons, List.not_mem_nil, or_false] at hfield
    rcases hfield with rfl | rfl
    · exact .inr (void_header below)
    · refine .inl (Schema.requires_of_owns owns.2 rfl ?_)
      rintro ⟨_, _ | key⟩ recipient hfinish
      · cases hfinish
      · exact Option.some_ne_none key
  inside := nofun

end Recipient

namespace Envelope

theorem orderly : schema.Orderly where
  positional := rfl
  keep := rfl
  nodup := nodup_names
  commutes := by
    intro field hfield other hother hne
    simp only [schema, List.mem_cons, List.not_mem_nil, or_false] at hfield hother
    rcases hfield with rfl | rfl | rfl | rfl | rfl | rfl | rfl | rfl | rfl <;>
      rcases hother with rfl | rfl | rfl | rfl | rfl | rfl | rfl | rfl | rfl <;>
      first | exact absurd rfl hne | exact Field.commutes_of_store fun _ _ _ => rfl

/-- The members of an envelope may come in any order, and so may those of its recipients. -/
def layout : Layout MemberFault Draft Parts where
  schema := schema
  optional := ["unprotected", "recipients", "header", "encrypted_key", "aad"]
  filler := fun _ => .null
  inside := fun name tree tree' =>
    name = "recipients" ∧ Tree.OneItem Recipient.layout.Step tree tree'

/-- An envelope, or one recipient in its list, has a member twice. -/
def Doubled (tree tree' : Tree) : Prop :=
  schema.Doubles tree tree' ∨ schema.Inside (fun name list list' =>
    name = "recipients" ∧ Tree.OneItem Recipient.schema.Doubles list list') tree tree'

theorem void_null {below : Nat} {field : Field MemberFault Draft} (hmem : field ∈ schema.fields)
    (h : field.name ∈ layout.optional) : schema.Void below (field, .null) := by
  obtain ⟨-, hunprotected, hrecipients, hheader, hkey, haad, -⟩ := owns
  simp only [schema, List.mem_cons, List.not_mem_nil, or_false] at hmem
  rcases hmem with rfl | rfl | rfl | rfl | rfl | rfl | rfl | rfl | rfl
  · exact absurd h (by decide)
  · exact Schema.void_null_of_owns hunprotected (by rintro ⟨⟩ ⟨⟩; rfl)
  · exact Schema.void_null_of_owns hrecipients (by rintro ⟨⟩ ⟨⟩; rfl)
  · exact Schema.void_null_of_owns hheader (by rintro ⟨⟩ ⟨⟩; rfl)
  · exact Schema.void_null_of_owns hkey (by rintro ⟨⟩ ⟨⟩; rfl)
  · exact Schema.void_null_of_owns haad (by rintro ⟨⟩ ⟨⟩; rfl)
  all_goals exact absurd h (by decide)

theorem requires {below : Nat} {field : Field MemberFault Draft} (hmem : field ∈ schema.fields)
    (h : field.name ∉ layout.optional) : schema.Requires below field := by
  obtain ⟨hprotected, -, -, -, -, -, hiv, hciphertext, htag⟩ := owns
  simp only [schema, List.mem_cons, List.not_mem_nil, or_false] at hmem
  rcases hmem with rfl | rfl | rfl | rfl | rfl | rfl | rfl | rfl | rfl
  · exact Schema.requires_of_owns hprotected rfl fun _ _ h => by
      rw [finish_eq_ok h]; exact Option.some_ne_none _
  iterate 5 exact absurd (by decide) h
  · exact Schema.requires_of_owns hiv rfl fun _ _ h => by
      rw [finish_eq_ok h]; exact Option.some_ne_none _
  · exact Schema.requires_of_owns hciphertext rfl fun _ _ h => by
      rw [finish_eq_ok h]; exact Option.some_ne_none _
  · exact Schema.requires_of_owns htag rfl fun _ _ h => by
      rw [finish_eq_ok h]; exact Option.some_ne_none _

/-- The only field inside of which something may change is the list of recipients. -/
theorem read_recipients_eq_ok_iff {below : Nat} {field : Field MemberFault Draft}
    (hmem : field ∈ schema.fields) (hname : field.name = "recipients") {tree : Tree}
    {update : Draft → Draft} :
    field.read below tree = .ok update ↔ ∃ recipients,
      (Reader.list Recipient.schema.read).optional below tree = .ok recipients ∧
        (fun draft => { draft with recipients }) = update := by
  obtain rfl := Schema.eq_of_name_eq nodup_names
    (List.mem_cons_of_mem _ (List.mem_cons_of_mem _ List.mem_cons_self)) hmem hname
  exact Field.of_read_eq_ok_iff

theorem layout_sound (below : Nat) : layout.Sound (below + 3) where
  orderly := orderly
  optional := fun _ => void_null
  filler := fun field hmem => by
    by_cases h : field.name ∈ layout.optional
    · exact .inr (void_null hmem h)
    · exact .inl (requires hmem h)
  inside := by
    rintro field hmem tree tree' ⟨hname, hchange⟩ update h
    rw [read_recipients_eq_ok_iff hmem hname] at h ⊢
    obtain ⟨recipients, hread, hupdate⟩ := h
    refine ⟨recipients, ?_, hupdate⟩
    exact hchange.optional_list_eq_ok (fun _ _ _ hstep =>
      hstep.read_eq_ok (Recipient.layout_sound below)) hread

/-- No member of an envelope or of a recipient may come twice. -/
theorem Doubled.read_ne_ok {below : Nat} {tree tree' : Tree} {parts : Parts}
    (h : Doubled tree tree') : schema.read (below + 3) tree' ≠ .ok parts := by
  rcases h with htop | hinside
  · exact htop.read_ne_ok orderly
  · refine hinside.read_ne_ok orderly ?_
    rintro field hmem list list' ⟨hname, hchange⟩ update h
    obtain ⟨recipients, hread, -⟩ := (read_recipients_eq_ok_iff hmem hname).1 h
    exact hchange.optional_list_ne_ok (fun _ _ _ hdoubles =>
      hdoubles.read_ne_ok Recipient.orderly) hread

theorem reader_eq_ok_iff {depth : Nat} {tree : Tree} {envelope : Envelope} :
    reader depth tree = .ok envelope ↔
      ∃ parts, schema.read depth tree = .ok parts ∧ parts.toEnvelope = .ok envelope := by
  rw [reader, bind_eq_ok_iff]
  exact exists_congr fun parts => and_congr_right fun _ => mapError_eq_ok_iff

theorem careful_reader : reader.Careful := by
  intro depth tree envelope h
  obtain ⟨parts, hparts, -⟩ := reader_eq_ok_iff.1 h
  refine Schema.careful_read (fun field hmem => ?_) depth tree parts hparts
  have hrecipient : (Recipient.schema.read).Careful := by
    refine Schema.careful_read fun field hmem => ?_
    simp only [Recipient.schema, List.mem_cons, List.not_mem_nil, or_false] at hmem
    rcases hmem with rfl | rfl
    · exact Header.careful_reader.field
    · exact (Reader.careful_textThen _).field
  simp only [schema, List.mem_cons, List.not_mem_nil, or_false] at hmem
  rcases hmem with rfl | rfl | rfl | rfl | rfl | rfl | rfl | rfl | rfl
  · exact (Reader.careful_textThen _).field
  · exact Header.careful_reader.optional.field
  · exact hrecipient.list.optional.field
  · exact Header.careful_reader.optional.field
  · exact (Reader.careful_textThen _).optional.field
  · exact Reader.careful_text.optional.field
  iterate 3 exact (Reader.careful_textThen _).field

/-- An envelope is what is read of the tree of its text. -/
theorem ofBytes_eq_ok_iff {text : Bytes} {envelope : Envelope} :
    ofBytes text = .ok envelope ↔
      ∃ tree : Tree, tree.Spells text ∧ reader Json.maxDepth tree = .ok envelope := by
  rw [ofBytes, mapError_eq_ok_iff, Reader.whole_eq_ok_iff_spells careful_reader]

theorem reader_eq_ok_of_steps {tree tree' : Tree} {envelope : Envelope}
    (hsteps : Relation.ReflTransGen layout.Step tree tree')
    (h : reader Json.maxDepth tree = .ok envelope) : reader Json.maxDepth tree' = .ok envelope := by
  obtain ⟨parts, hparts, hend⟩ := reader_eq_ok_iff.1 h
  exact reader_eq_ok_iff.2
    ⟨parts, Layout.read_eq_ok_of_steps (layout_sound 123) hsteps hparts, hend⟩

theorem spellable_of_steps {tree tree' : Tree}
    (hsteps : Relation.ReflTransGen layout.Step tree tree') (h : tree.Spellable) :
    tree'.Spellable := by
  have hempty : (Tree.object [] true).Spellable :=
    Tree.spellable_object_iff.2 (List.forall_mem_nil _)
  refine Layout.spellable_of_steps (fun _ => Tree.spellable_null) ?_ hsteps h
  rintro name value value' ⟨-, hchange⟩
  exact hchange.spellable fun _ _ hstep => hstep.spellable (fun _ => hempty) fun _ _ _ => False.elim

/-- A text with a member twice is no envelope. -/
theorem Doubled.exists_error {tree tree' : Tree} {text : Bytes} (h : Doubled tree tree')
    (hspells : tree'.Spells text) : ∃ error, ofBytes text = .error error := by
  cases hresult : ofBytes text with
  | error error => exact ⟨error, rfl⟩
  | ok envelope =>
    obtain ⟨_, hother, hread⟩ := ofBytes_eq_ok_iff.1 hresult
    obtain rfl := hother.unique hspells
    obtain ⟨parts, hparts, -⟩ := reader_eq_ok_iff.1 hread
    exact absurd hparts (@read_ne_ok 124 _ _ _ h)

end Envelope

namespace VerificationMethod

theorem orderly : schema.Orderly where
  positional := rfl
  keep := rfl
  nodup := by decide
  commutes := by
    intro field hfield other hother hne
    simp only [schema, List.mem_cons, List.not_mem_nil, or_false] at hfield hother
    rcases hfield with rfl | rfl | rfl | rfl | rfl <;>
      rcases hother with rfl | rfl | rfl | rfl | rfl <;>
      first | exact absurd rfl hne | exact Field.commutes_of_store fun _ _ _ => rfl

/-- The members of a verification method may come in any order and are all optional. -/
def layout : Layout Empty VerificationMethod VerificationMethod where
  schema := schema
  optional := ["id", "type", "controller", "publicKeyMultibase", "publicKeyBase58"]
  filler := fun _ => .null
  inside := fun _ _ _ => False

/-- Each member is stored in a part of its own. -/
theorem owns :
    schema.Owns "id" VerificationMethod.id ∧ schema.Owns "type" VerificationMethod.type ∧
    schema.Owns "controller" VerificationMethod.controller ∧
    schema.Owns "publicKeyMultibase" VerificationMethod.publicKeyMultibase ∧
    schema.Owns "publicKeyBase58" VerificationMethod.publicKeyBase58 := by
  refine ⟨⟨?_, nofun⟩, ⟨?_, nofun⟩, ⟨?_, nofun⟩, ⟨?_, nofun⟩, ⟨?_, nofun⟩⟩ <;>
    intro field hmem <;>
    simp only [schema, List.mem_cons, List.not_mem_nil, or_false] at hmem <;>
    rcases hmem with rfl | rfl | rfl | rfl | rfl <;>
    first | exact .inl rfl | exact .inr (Field.keeps_of_store fun _ _ => rfl)

theorem void_null {below : Nat} {field : Field Empty VerificationMethod}
    (hmem : field ∈ schema.fields) : schema.Void below (field, .null) := by
  obtain ⟨hid, htype, hcontroller, hmultibase, hbase58⟩ := owns
  simp only [schema, List.mem_cons, List.not_mem_nil, or_false] at hmem
  rcases hmem with rfl | rfl | rfl | rfl | rfl
  · exact Schema.void_null_of_owns hid (by rintro ⟨⟩ ⟨⟩; rfl)
  · exact Schema.void_null_of_owns htype (by rintro ⟨⟩ ⟨⟩; rfl)
  · exact Schema.void_null_of_owns hcontroller (by rintro ⟨⟩ ⟨⟩; rfl)
  · exact Schema.void_null_of_owns hmultibase (by rintro ⟨⟩ ⟨⟩; rfl)
  · exact Schema.void_null_of_owns hbase58 (by rintro ⟨⟩ ⟨⟩; rfl)

theorem layout_sound (below : Nat) : layout.Sound below where
  orderly := orderly
  optional := fun _ hmem _ => void_null hmem
  filler := fun _ hmem => .inr (void_null hmem)
  inside := nofun

theorem careful_read : (schema.read).Careful := by
  refine Schema.careful_read fun field hmem => ?_
  simp only [schema, List.mem_cons, List.not_mem_nil, or_false] at hmem
  rcases hmem with rfl | rfl | rfl | rfl | rfl <;> exact Reader.careful_text.optional.field

/-- A verification method is what is read of the tree of its text. -/
theorem ofText_eq_ok_iff {text : String} {method : VerificationMethod} :
    ofText text = .ok method ↔
      ∃ tree : Tree, tree.Spells (Bytes.ofText text) ∧
        schema.read Json.maxDepth tree = .ok method := by
  rw [ofText, mapError_eq_ok_iff, Reader.whole_eq_ok_iff_spells careful_read]

/-- A text with a member twice is no verification method. -/
theorem exists_error_of_doubles {tree tree' : Tree} {text : String}
    (h : schema.Doubles tree tree') (hspells : tree'.Spells (Bytes.ofText text)) :
    ∃ error, ofText text = .error error := by
  cases hresult : ofText text with
  | error error => exact ⟨error, rfl⟩
  | ok method =>
    obtain ⟨_, hother, hread⟩ := ofText_eq_ok_iff.1 hresult
    obtain rfl := hother.unique hspells
    exact absurd hread (h.read_ne_ok orderly)

theorem spellable_of_steps {tree tree' : Tree}
    (hsteps : Relation.ReflTransGen layout.Step tree tree') (h : tree.Spellable) :
    tree'.Spellable :=
  Layout.spellable_of_steps (fun _ => Tree.spellable_null) (fun _ _ _ => False.elim) hsteps h

end VerificationMethod

/-- **What is read depends on the members only, not on their layout.**  A text that is read has a
tree.  However its layout is changed there is a text with the new tree, and what is read of every
such text is the same.  If a member is then added that is already there, nothing is read. -/
theorem reading_ignores_layout :
    (∀ text envelope, Envelope.ofBytes text = .ok envelope →
      ∃ tree : Tree, tree.Spells text ∧
        ∀ tree', Relation.ReflTransGen Envelope.layout.Step tree tree' →
          tree'.Spellable ∧
          (∀ text', tree'.Spells text' → Envelope.ofBytes text' = .ok envelope) ∧
          ∀ tree'' text'', Envelope.Doubled tree' tree'' → tree''.Spells text'' →
            ∃ error, Envelope.ofBytes text'' = .error error) ∧
    ∀ text method, VerificationMethod.ofText text = .ok method →
      ∃ tree : Tree, tree.Spells (Bytes.ofText text) ∧
        ∀ tree', Relation.ReflTransGen VerificationMethod.layout.Step tree tree' →
          tree'.Spellable ∧
          (∀ text', tree'.Spells (Bytes.ofText text') →
            VerificationMethod.ofText text' = .ok method) ∧
          ∀ tree'' text'', VerificationMethod.schema.Doubles tree' tree'' →
            tree''.Spells (Bytes.ofText text'') →
            ∃ error, VerificationMethod.ofText text'' = .error error := by
  constructor
  · intro text envelope h
    obtain ⟨tree, hspells, hread⟩ := Envelope.ofBytes_eq_ok_iff.1 h
    refine ⟨tree, hspells, fun tree' hsteps => ⟨?_, fun text' hspells' => ?_, ?_⟩⟩
    · exact Envelope.spellable_of_steps hsteps hspells.spellable
    · exact Envelope.ofBytes_eq_ok_iff.2
        ⟨tree', hspells', Envelope.reader_eq_ok_of_steps hsteps hread⟩
    · exact fun _ _ hdoubled => hdoubled.exists_error
  · intro text method h
    obtain ⟨tree, hspells, hread⟩ := VerificationMethod.ofText_eq_ok_iff.1 h
    refine ⟨tree, hspells, fun tree' hsteps => ⟨?_, fun text' hspells' => ?_, ?_⟩⟩
    · exact VerificationMethod.spellable_of_steps hsteps hspells.spellable
    · exact VerificationMethod.ofText_eq_ok_iff.2 ⟨tree', hspells',
        Layout.read_eq_ok_of_steps (VerificationMethod.layout_sound 126) hsteps hread⟩
    · exact fun _ _ hdoubles => VerificationMethod.exists_error_of_doubles hdoubles

/-- An envelope with a recipient whose header is missing, the same with both of them written as
arrays, and one with two tags; a verification method, the same with another member and the key by
its other name, and one with both names. -/
theorem reading_ignores_layout_of_arrays_and_names :
    let object := "\x7b\"protected\":\"e30\",\"recipients\":[\x7b\"encrypted_key\":\"AQ\"\x7d]," ++
      "\"iv\":\"AA\",\"ciphertext\":\"AA\",\"tag\":\"AA\"\x7d"
    let array := "[\"e30\",null,[[\x7b\x7d,\"AQ\"]],null,null,null,\"AA\",\"AA\",\"AA\"]"
    let twoTags := "\x7b\"tag\":null,\"protected\":\"e30\"," ++
      "\"recipients\":[\x7b\"encrypted_key\":\"AQ\"\x7d]," ++
      "\"iv\":\"AA\",\"ciphertext\":\"AA\",\"tag\":\"AA\"\x7d"
    let named := "\x7b\"publicKeyMultibase\":\"z1\"\x7d"
    let renamed := "\x7b\"x\":[true],\"publicKeyMultiBase\":\"z1\"\x7d"
    let twoNames := "\x7b\"publicKeyMultibase\":null,\"publicKeyMultiBase\":\"z1\"\x7d"
    (∃ envelope, Envelope.ofText object = .ok envelope ∧ Envelope.ofText array = .ok envelope ∧
      ∃ error, Envelope.ofText twoTags = .error error) ∧
    ∃ method, VerificationMethod.ofText named = .ok method ∧
      VerificationMethod.ofText renamed = .ok method ∧
      ∃ error, VerificationMethod.ofText twoNames = .error error := by
  intro object array twoTags named renamed twoNames
  constructor
  · let recipient : Json := .object [("encrypted_key", .string "AQ")]
    let rest : Json.Members :=
      [("iv", .string "AA"), ("ciphertext", .string "AA"), ("tag", .string "AA")]
    let value : Json :=
      .object (("protected", .string "e30") :: ("recipients", .array [recipient]) :: rest)
    let listed : Json := .array [.object [], .string "AQ"]
    let value' : Json :=
      .object (("protected", .string "e30") :: ("recipients", .array [listed]) :: rest)
    let arrayValue : Json := .array [.string "e30", .null, .array [listed], .null, .null, .null,
      .string "AA", .string "AA", .string "AA"]
    let twiceValue : Json := .object (("tag", .null) :: ("protected", .string "e30") ::
      ("recipients", .array [recipient]) :: rest)
    have hgiven : (Envelope.ofText object).toOption.any (fun _ => true) = true := by decide +kernel
    obtain ⟨envelope, henvelope, -⟩ := exists_eq_ok_of_any hgiven
    obtain ⟨tree, hspells, hall⟩ := reading_ignores_layout.1 _ envelope henvelope
    have hvalue : object = value.render := by decide +kernel
    rw [hvalue] at hspells
    obtain rfl := hspells.unique (Tree.spells_render (by decide))
    have hrecipient : Recipient.layout.Step (.ofJson recipient) (.ofJson listed) := .list
    have hinside : Envelope.layout.Step (.ofJson value) (.ofJson value') :=
      .inside (@Schema.Inside.member _ _ _ _ _ [(some "protected", .string (some "e30"))]
        (Tree.ofMembers rest) "recipients" _ _ _ rfl
        ⟨rfl, @Tree.OneItem.mk _ [] [] _ _ hrecipient⟩)
    have hlist : Envelope.layout.Step (.ofJson value') (.ofJson arrayValue) := .list
    refine ⟨envelope, henvelope, (hall _ (.tail (.single hinside) hlist)).2.1 _ ?_, ?_⟩
    · have harray : array = arrayValue.render := by decide +kernel
      rw [harray]
      exact Tree.spells_render (by decide)
    · have hdoubles : Envelope.schema.Doubles (.ofJson value) (.ofJson twiceValue) :=
        @Schema.Doubles.mk _ _ _ _ _ _ "tag" .null _ rfl
          (Option.some_ne_none (Tree.string (some "AA"))) (.refl _)
      have htwice : twoTags = twiceValue.render := by decide +kernel
      rw [htwice]
      exact (hall _ .refl).2.2 _ _ (.inl hdoubles) (Tree.spells_render (by decide))
  · let member : String × Json := ("publicKeyMultibase", .string "z1")
    let other : String × Json := ("publicKeyMultiBase", .string "z1")
    let unknown : String × Json := ("x", .array [.bool true])
    have hgiven : (VerificationMethod.ofText named).toOption.any (fun _ => true) = true := by
      decide +kernel
    obtain ⟨method, hmethod, -⟩ := exists_eq_ok_of_any hgiven
    obtain ⟨tree, hspells, hall⟩ := reading_ignores_layout.2 _ method hmethod
    have hvalue : named = (Json.object [member]).render := by decide +kernel
    rw [hvalue] at hspells
    obtain rfl := hspells.unique (Tree.spells_render (by decide))
    have hname : VerificationMethod.layout.Step (.ofJson (.object [member]))
        (.ofJson (.object [other])) := .rename rfl rfl
    have hunknown : VerificationMethod.layout.Step (.ofJson (.object [other]))
        (.ofJson (.object [unknown, other])) :=
      .unknown rfl ⟨_, @Tree.spells_render (.array [.bool true]) (by decide)⟩
    have hdoubles : VerificationMethod.schema.Doubles (.ofJson (.object [other]))
        (.ofJson (.object [("publicKeyMultibase", .null), other])) :=
      @Schema.Doubles.mk _ _ _ _ _ _ "publicKeyMultibase" .null _ rfl
        (Option.some_ne_none (Tree.string (some "z1"))) (.refl _)
    refine ⟨method, hmethod, (hall _ (.tail (.single hname) hunknown)).2.1 _ ?_, ?_⟩
    · have hrenamed : renamed = (Json.object [unknown, other]).render := by decide +kernel
      rw [hrenamed]
      exact Tree.spells_render (by decide)
    · have htwo : twoNames = (Json.object [("publicKeyMultibase", .null), other]).render := by
        decide +kernel
      rw [htwo]
      exact (hall _ (.single hname)).2.2 _ _ hdoubles (Tree.spells_render (by decide))

end SealedEnvelope
