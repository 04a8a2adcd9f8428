import SealedEnvelope.Json.Scan

/-!
# The shape of a JSON text

`Tree.build` arranges tokens into a tree as far as they follow the grammar.  Where
they stop doing so the tree is *cut off*: the value that should stand there is
`Tree.broken`, and every container around it is marked as not closed.

## Why a text that breaks off still has a tree

A text is read from its beginning, and the first thing wrong with it is what is
reported.  So a member of the wrong type counts before a missing bracket behind
it.  With cut off trees this needs no care: a reader goes through the tree in the
order of the text, and meets the end of the grammar where the text has it.

## How the tree is built

The builder keeps the containers that are open, the innermost first, and goes
through the tokens once.  Nesting is not bounded here; readers bound it.
-/

namespace SealedEnvelope.Json

/-- A JSON text as far as it follows the grammar. -/
inductive Tree where
  /-- There is no value where one should be. -/
  | broken
  | null
  | bool (value : Bool)
  | number (value : Option Number)
  | string (text : Option String)
  /-- The items of an array, and whether its bracket was closed. -/
  | array (items : List Tree) (closed : Bool)
  /-- The members of an object, repeated names included, and whether its brace was
  closed. -/
  | object (members : List (Option String × Tree)) (closed : Bool)

namespace Tree

instance : Inhabited Tree := ⟨.broken⟩

/-- A container that is still open, with what was read of it, the last first. -/
inductive Frame where
  | array (items : List Tree)
  /-- An object whose member `name` is being read. -/
  | object (members : List (Option String × Tree)) (name : Option String)

/-- The container of a frame with one more value, which ends it. -/
def Frame.close (frame : Frame) (last : Tree) (closed : Bool) : Tree :=
  match frame with
  | .array items => .array (items.reverse ++ [last]) closed
  | .object members name => .object (members.reverse ++ [(name, last)]) closed

/-- The tree of a text that ends behind `last`, all open containers being cut off. -/
def cutOff (frames : List Frame) (last : Tree) : Tree :=
  frames.foldl (fun value frame => frame.close value false) last

mutual

/-- Reads a value. -/
def readValue (frames : List Frame) (tokens : List Token) : Tree × List Token :=
  match tokens with
  | .null :: rest => afterValue frames .null rest
  | .bool b :: rest => afterValue frames (.bool b) rest
  | .number n :: rest => afterValue frames (.number n) rest
  | .string text :: rest => afterValue frames (.string text) rest
  | .leftBracket :: .rightBracket :: rest => afterValue frames (.array [] true) rest
  | .leftBracket :: rest => readValue (.array [] :: frames) rest
  | .leftBrace :: .rightBrace :: rest => afterValue frames (.object [] true) rest
  | .leftBrace :: .string name :: .colon :: rest => readValue (.object [] name :: frames) rest
  | .leftBrace :: .string name :: _ => (cutOff (.object [] name :: frames) .broken, [])
  | .leftBrace :: _ => (cutOff frames (.object [] false), [])
  | _ => (cutOff frames .broken, [])
termination_by structural tokens

/-- Goes on behind a value: with the next item or member, with the end of the
innermost container, or, if none is open, with nothing. -/
def afterValue (frames : List Frame) (value : Tree) (tokens : List Token) : Tree × List Token :=
  match frames, tokens with
  | [], tokens => (value, tokens)
  | .array items :: outer, .comma :: rest => readValue (.array (value :: items) :: outer) rest
  | .array items :: outer, .rightBracket :: rest =>
    afterValue outer ((Frame.array items).close value true) rest
  | .object members name :: outer, .comma :: .string next :: .colon :: rest =>
    readValue (.object ((name, value) :: members) next :: outer) rest
  | .object members name :: outer, .comma :: .string next :: _ =>
    (cutOff (.object ((name, value) :: members) next :: outer) .broken, [])
  | .object members name :: outer, .rightBrace :: rest =>
    afterValue outer ((Frame.object members name).close value true) rest
  | frames, _ => (cutOff frames value, [])
termination_by structural tokens

end

/-- The tree of the first value of a text, and the tokens behind it. -/
def build (tokens : List Token) : Tree × List Token := readValue [] tokens

/-! ## Trees without a fault -/

mutual

/-- Whether nothing is missing in a tree.  Numbers and strings may be without a
value. -/
def intact : Tree → Bool
  | .broken => false
  | .array items closed => intactItems items && closed
  | .object members closed => intactMembers members && closed
  | _ => true

/-- Whether nothing is missing in any of the trees. -/
def intactItems : List Tree → Bool
  | [] => true
  | item :: rest => item.intact && intactItems rest

/-- Whether nothing is missing in any of the members. -/
def intactMembers : List (Option String × Tree) → Bool
  | [] => true
  | (_, value) :: rest => value.intact && intactMembers rest

end

mutual

/-- The tree of a value's text. -/
def ofJson : Json → Tree
  | .null => .null
  | .bool b => .bool b
  | .number n => .number (some n)
  | .string text => .string (some text)
  | .array items => .array (ofItems items) true
  | .object members => .object (ofMembers members) true

/-- The trees of values. -/
def ofItems : List Json → List Tree
  | [] => []
  | item :: rest => ofJson item :: ofItems rest

/-- The trees of members. -/
def ofMembers : List (String × Json) → List (Option String × Tree)
  | [] => []
  | (name, value) :: rest => (some name, ofJson value) :: ofMembers rest

end

/-! ## The value of a tree -/

mutual

/-- The value of a tree; none if the text breaks off, if a number or a string has
no value, or if more than `depth` containers are nested. -/
def value? (depth : Nat) : Tree → Option Json
  | .broken => none
  | .null => some .null
  | .bool b => some (.bool b)
  | .number n => n.map .number
  | .string text => text.map .string
  | .array items closed =>
    match depth with
    | 0 => none
    | depth + 1 => if closed then (itemValues? depth items).map .array else none
  | .object members closed =>
    match depth with
    | 0 => none
    | depth + 1 =>
      if closed then
        (memberValues? depth members).map fun entries => .object (Members.ofList entries)
      else none

/-- The values of trees. -/
def itemValues? (depth : Nat) : List Tree → Option (List Json)
  | [] => some []
  | item :: rest => do
    let value ← item.value? depth
    let values ← itemValues? depth rest
    some (value :: values)

/-- The values of members. -/
def memberValues? (depth : Nat) : List (Option String × Tree) → Option (List (String × Json))
  | [] => some []
  | (name, item) :: rest => do
    let name ← name
    let value ← item.value? depth
    let entries ← memberValues? depth rest
    some ((name, value) :: entries)

end

end Tree
end SealedEnvelope.Json
