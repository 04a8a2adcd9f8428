import SealedEnvelope.Json.Reader

/-!
# Records

A record is a fixed list of fields.  Its text is an object whose members are the
fields in any order or, if the schema says so, an array of the fields in the order
of the schema.

* A field may have other names.  Naming a field twice, under whichever names, is a
  fault, reported where the second name stands.
* A member that is no field is passed over, or kept if the schema says how.
  Passing over asks less of a value than reading it: the value must follow the
  grammar, but may nest as deep as it likes and hold numbers and strings that have
  no value.
* Fields that are still missing at the end are reported then.  In an array they can
  only be missing at the end, and what is reported is the place of the first one.

## How a record is collected

Reading a field gives an *update* of what was collected so far.  Updates of
different fields do not touch the same part of a record, so the order of the
members is of no consequence.
-/

namespace SealedEnvelope.Json

/-- A field of a record that is collected in `σ`. -/
structure Field (ε σ : Type) where
  name : String
  aliases : List String
  read : Reader ε (σ → σ)

/-- The fields of a record of type `α`, which is collected in `σ`. -/
structure Schema (ε σ α : Type) where
  /-- What error texts call the record. -/
  title : String
  fields : List (Field ε σ)
  /-- The record of which nothing was read yet. -/
  blank : σ
  /-- The record, or the name of its first missing field. -/
  finish : σ → Except String α
  /-- Whether an array may stand for the record. -/
  positional : Bool
  /-- How to keep a member that is no field; passed over if there is no way. -/
  keep : Option (String → Json → σ → σ)

namespace Field

variable {ε σ β : Type}

/-- A field of one name. -/
def of (name : String) (read : Reader ε β) (store : β → σ → σ) : Field ε σ :=
  ⟨name, [], fun depth tree => (read depth tree).map store⟩

/-- A field of two names. -/
def withAlias (name other : String) (read : Reader ε β) (store : β → σ → σ) : Field ε σ :=
  ⟨name, [other], fun depth tree => (read depth tree).map store⟩

/-- Whether a member of this name is the field. -/
def isNamed (field : Field ε σ) (name : String) : Bool :=
  field.name = name || field.aliases.contains name

end Field

namespace Schema

variable {ε σ α : Type} (schema : Schema ε σ α)

/-- The field that a member of this name is. -/
def field? (name : String) : Option (Field ε σ) :=
  schema.fields.find? (·.isNamed name)

/-- What a member that is no field does to the record. -/
def other (depth : Nat) (name : String) (value : Tree) : Except (Fault ε) (σ → σ) :=
  match schema.keep with
  | some keep => (Reader.value depth value).map (keep name)
  | none => if value.intact then .ok id else .error .malformed

/-- Reads members; `seen` are the names of the fields that were read before. -/
def readMembers (depth : Nat) (seen : List String) (record : σ) :
    List (Option String × Tree) → Except (Fault ε) σ
  | [] => .ok record
  | (none, _) :: _ => .error .malformed
  | (some name, value) :: rest =>
    match schema.field? name with
    | some field =>
      if seen.contains field.name then .error (.duplicateField field.name)
      else do
        let update ← field.read depth value
        readMembers depth (field.name :: seen) (update record) rest
    | none => do
      let update ← schema.other depth name value
      readMembers depth seen (update record) rest

/-- The error text for an array of the wrong length. -/
def arrayTitle : String :=
  schema.title ++ " with " ++ Decimal.natural schema.fields.length ++ " elements"

/-- The place of a field in the order of the schema. -/
def place (name : String) : Nat := schema.fields.findIdx (·.name = name)

end Schema

/-- Reads items as fields, in order.  Items may be fewer than fields. -/
def Field.readItems {ε σ : Type} (depth : Nat) (record : σ) :
    List (Field ε σ) → List Tree → Except (Fault ε) σ
  | _, [] => .ok record
  | [], _ :: _ => .error .malformed
  | field :: fields, item :: rest => do
    let update ← field.read depth item
    readItems depth (update record) fields rest

/-- Reads a record. -/
def Schema.read {ε σ α : Type} (schema : Schema ε σ α) : Reader ε α := fun depth tree =>
  match tree, depth with
  | .object _ _, 0 => .error .malformed
  | .object members closed, depth + 1 => do
    let record ← schema.readMembers depth [] schema.blank members
    if closed then
      match schema.finish record with
      | .ok a => .ok a
      | .error name => .error (.missingField name)
    else .error .malformed
  | .array items closed, depth =>
    if schema.positional then
      match depth with
      | 0 => .error .malformed
      | depth + 1 => do
        let record ← Field.readItems depth schema.blank schema.fields items
        if closed then
          match schema.finish record with
          | .ok a => .ok a
          | .error name => .error (.invalidLength (schema.place name) schema.arrayTitle)
        else .error .malformed
    else .error ((Tree.array items closed).mismatch schema.title)
  | other, _ => .error (other.mismatch schema.title)

end SealedEnvelope.Json
