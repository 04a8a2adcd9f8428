import SealedEnvelope.Json.Record
import SealedEnvelope.Json.Sorted
import SealedEnvelope.Text.Base64Url

/-!
# Public keys as JSON

A JSON web key names its type and curve and gives the coordinates in base64url.
Members that a key does not know are kept, sorted by name, so that writing a key
loses nothing and two equal keys have one text.
-/

namespace SealedEnvelope

namespace Jwk

/-- The names of the members that a key knows. -/
def names : List String := ["kty", "crv", "x", "y", "kid"]

/-- Members that a key does not know, in order of their names. -/
structure Extras where
  members : Json.Members
  sorted : members.Sorted
  unknown : ∀ member ∈ members, member.1 ∉ names

/-- No further members. -/
def Extras.empty : Extras := ⟨[], .nil, nofun⟩

/-- Adds a member, or replaces its value; the names that a key knows are not for
further members. -/
def Extras.insert (extras : Extras) (name : String) (value : Json) : Extras :=
  if h : name ∈ names then extras
  else
    { members := extras.members.insertSorted name value
      sorted := extras.sorted.insertSorted name value
      unknown := fun member hmem => by
        rcases Json.Members.mem_insertSorted hmem with rfl | hmem
        · exact h
        · exact extras.unknown member hmem }

end Jwk

/-- A public key as JSON. -/
structure Jwk where
  kty : String
  crv : String
  x : String
  y : Option String
  kid : Option String
  extras : Jwk.Extras

namespace Jwk

/-- A key that is a single string of octets. -/
def octetPair (crv : String) (x : Bytes) : Jwk :=
  ⟨"OKP", crv, Text.Base64Url.encode x, none, none, .empty⟩

/-- A key that is a point with two coordinates. -/
def point (crv : String) (x y : Bytes) : Jwk :=
  ⟨"EC", crv, Text.Base64Url.encode x, some (Text.Base64Url.encode y), none, .empty⟩

/-- The key under a name. -/
def withKid (jwk : Jwk) (kid : String) : Jwk := { jwk with kid := some kid }

/-- The members of a key: those that it knows and then the others by name. -/
def toMembers (jwk : Jwk) : Json.Members :=
  [("kty", .string jwk.kty), ("crv", .string jwk.crv), ("x", .string jwk.x)] ++
    (jwk.y.map fun y => ("y", Json.string y)).toList ++
    (jwk.kid.map fun kid => ("kid", Json.string kid)).toList ++ jwk.extras.members

/-- A key as a JSON value. -/
def toJson (jwk : Jwk) : Json := .object jwk.toMembers

/-! ## Reading -/

/-- What was read of a key so far. -/
structure Parts where
  kty : Option String
  crv : Option String
  x : Option String
  y : Option String
  kid : Option String
  extras : Extras

/-- The members of a key, of which `y` and `kid` may be absent or `null`. -/
def schema (ε : Type) : Json.Schema ε Parts Jwk where
  title := "struct Jwk"
  fields :=
    [.of "kty" Json.Reader.text fun kty parts => { parts with kty := some kty },
     .of "crv" Json.Reader.text fun crv parts => { parts with crv := some crv },
     .of "x" Json.Reader.text fun x parts => { parts with x := some x },
     .of "y" Json.Reader.text.optional fun y parts => { parts with y },
     .of "kid" Json.Reader.text.optional fun kid parts => { parts with kid }]
  blank := ⟨none, none, none, none, none, .empty⟩
  finish := fun parts => do
    let kty ← parts.kty.elim (.error "kty") .ok
    let crv ← parts.crv.elim (.error "crv") .ok
    let x ← parts.x.elim (.error "x") .ok
    .ok ⟨kty, crv, x, parts.y, parts.kid, parts.extras⟩
  positional := false
  keep := some fun name value parts => { parts with extras := parts.extras.insert name value }

/-- Reads a key from a text. -/
def ofText {ε : Type} (text : Bytes) : Except (Json.Fault ε) Jwk := (schema ε).read.whole text

/-- Reads a key from a JSON value, however deep it nests. -/
def ofJson {ε : Type} (value : Json) : Except (Json.Fault ε) Jwk :=
  (schema ε).read value.depth (.ofJson value)

end Jwk
end SealedEnvelope
