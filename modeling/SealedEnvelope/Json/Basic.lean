import SealedEnvelope.Json.Number

/-!
# JSON values

The members of an object keep the order in which they were added.  Adding a
member whose name is there already replaces the value and keeps the place
(`Members.insert`), so the names of an object that was read are distinct.
-/

namespace SealedEnvelope

/-- A JSON value. -/
inductive Json where
  | null
  | bool (value : Bool)
  | number (value : Json.Number)
  | string (text : String)
  | array (items : List Json)
  | object (members : List (String × Json))

namespace Json

instance : Inhabited Json := ⟨.null⟩

/-- The members of an object, in order. -/
abbrev Members := List (String × Json)

/-- The text of a string value. -/
def asString? : Json → Option String
  | .string text => some text
  | _ => none

namespace Members

/-- The value of a member. -/
def find? (members : Members) (name : String) : Option Json :=
  members.lookup name

/-- The members with one more, or with another value for a name that is there. -/
def insert (members : Members) (name : String) (value : Json) : Members :=
  match members with
  | [] => [(name, value)]
  | (other, old) :: rest =>
    if other = name then (name, value) :: rest else (other, old) :: insert rest name value

/-- The members added one after the other. -/
def ofList (entries : List (String × Json)) : Members :=
  entries.foldl (fun members (name, value) => members.insert name value) []

@[simp] theorem insert_nil (name : String) (value : Json) :
    insert [] name value = [(name, value)] := rfl

@[simp] theorem insert_cons_self (name : String) (old value : Json) (rest : Members) :
    insert ((name, old) :: rest) name value = (name, value) :: rest := by
  simp [insert]

end Members

/-! ## Nesting -/

mutual

/-- How many containers are nested in a value. -/
def depth : Json → Nat
  | .array items => itemsDepth items + 1
  | .object members => membersDepth members + 1
  | _ => 0

/-- The greatest depth among values. -/
def itemsDepth : List Json → Nat
  | [] => 0
  | item :: rest => max item.depth (itemsDepth rest)

/-- The greatest depth among the values of members. -/
def membersDepth : List (String × Json) → Nat
  | [] => 0
  | (_, value) :: rest => max value.depth (membersDepth rest)

end

/-! ## Equality up to the order of members -/

mutual

/-- Equality of values, where the order of an object's members does not count. -/
def same : Json → Json → Bool
  | .null, .null => true
  | .bool a, .bool b => a = b
  | .number a, .number b => a.same b
  | .string a, .string b => a = b
  | .array as, .array bs => sameItems as bs
  | .object as, .object bs => as.length = bs.length && sameMembers as bs
  | _, _ => false

/-- Equality of lists of values, item by item. -/
def sameItems : List Json → List Json → Bool
  | [], [] => true
  | a :: as, b :: bs => a.same b && sameItems as bs
  | _, _ => false

/-- Whether each of the first members is among the second. -/
def sameMembers : List (String × Json) → List (String × Json) → Bool
  | [], _ => true
  | (name, a) :: as, bs =>
    (match bs.lookup name with
      | some b => a.same b
      | none => false) && sameMembers as bs

end

end Json
end SealedEnvelope
