import SealedEnvelope.Json.Fault
import SealedEnvelope.Json.Tree

/-!
# Reading values of a certain kind

A `Reader` takes the tree of a text and how many containers may still be nested in
it.  Where the tree holds another kind of value the reader names what it found and
what it expected (`Tree.mismatch`); a value that was not even read to its end is a
malformed text.
-/

namespace SealedEnvelope.Json

/-- Reads a value of type `α` from a tree that may nest so many containers. -/
abbrev Reader (ε α : Type) := (depth : Nat) → Tree → Except (Fault ε) α

/-- The greatest number of containers that may be nested in a text. -/
def maxDepth : Nat := 127

/-- The fault of a tree that holds another kind of value than expected. -/
def Tree.mismatch {ε : Type} (tree : Tree) (expected : String) : Fault ε :=
  match tree with
  | .broken | .number none | .string none => .malformed
  | .null => .invalidType .null expected
  | .bool b => .invalidType (.bool b) expected
  | .number (some (.integer i)) => .invalidType (.integer i.value) expected
  | .number (some (.double x)) => .invalidType (.double x) expected
  | .string (some text) => .invalidType (.string text) expected
  | .array _ _ => .invalidType .sequence expected
  | .object _ _ => .invalidType .map expected

namespace Reader

variable {ε α : Type}

/-- Reads any value. -/
def value : Reader ε Json := fun depth tree =>
  match tree.value? depth with
  | some v => .ok v
  | none => .error .malformed

/-- Reads a string. -/
def text : Reader ε String := fun _ tree =>
  match tree with
  | .string (some text) => .ok text
  | other => .error (other.mismatch "a string")

/-- Reads a string and converts it. -/
def textThen (convert : String → Except ε α) : Reader ε α := fun depth tree => do
  match convert (← text depth tree) with
  | .ok a => .ok a
  | .error cause => .error (.rejected cause)

/-- Reads the members of an object. -/
def members : Reader ε Members := fun depth tree =>
  match tree with
  | .object _ _ =>
    match tree.value? depth with
    | some (.object members) => .ok members
    | _ => .error .malformed
  | other => .error (other.mismatch "a map")

/-- Reads items one after the other. -/
def items (read : Tree → Except (Fault ε) α) : List Tree → Except (Fault ε) (List α)
  | [] => .ok []
  | item :: rest => do
    let a ← read item
    let as ← items read rest
    .ok (a :: as)

/-- Reads an array of like values. -/
def list (read : Reader ε α) : Reader ε (List α) := fun depth tree =>
  match tree, depth with
  | .array _ _, 0 => .error .malformed
  | .array trees closed, depth + 1 => do
    let as ← items (read depth) trees
    if closed then .ok as else .error .malformed
  | other, _ => .error (other.mismatch "a sequence")

/-- Reads a value that may be `null` instead. -/
def optional (read : Reader ε α) : Reader ε (Option α) := fun depth tree =>
  match tree with
  | .null => .ok none
  | other => (read depth other).map some

/-- Reads a whole text; nothing but blanks may follow the value. -/
def whole (read : Reader ε α) (text : Bytes) : Except (Fault ε) α := do
  let (tree, rest) := Tree.build (Token.scan text)
  let a ← read maxDepth tree
  if rest.isEmpty then .ok a else .error .malformed

end Reader
end SealedEnvelope.Json
