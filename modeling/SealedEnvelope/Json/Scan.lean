import SealedEnvelope.Json.Scan.Numeral
import SealedEnvelope.Json.Scan.Text
import SealedEnvelope.Json.Token

/-!
# Cutting a JSON text into tokens

`Token.scan` drops blanks and cuts one token after the other.  It never fails:
where no token can be cut the list ends in `Token.junk`, so that a reader who has
seen enough in the tokens before it never sees it.
-/

namespace SealedEnvelope.Json

/-- Whether an octet may stand between tokens. -/
def isBlank (byte : UInt8) : Bool :=
  byte = 0x20 || byte = 0x0a || byte = 0x0d || byte = 0x09

/-- The rest of a text that starts with the given octets. -/
def stripWord? : (word text : Bytes) → Option Bytes
  | [], text => some text
  | _ :: _, [] => none
  | w :: word, t :: text => if w = t then stripWord? word text else none

/-- Cuts the token that starts with the octet `byte`. -/
def Token.cut? (byte : UInt8) (rest : Bytes) : Option (Token × Bytes) :=
  if byte = 0x7b then some (.leftBrace, rest)
  else if byte = 0x7d then some (.rightBrace, rest)
  else if byte = 0x5b then some (.leftBracket, rest)
  else if byte = 0x5d then some (.rightBracket, rest)
  else if byte = 0x2c then some (.comma, rest)
  else if byte = 0x3a then some (.colon, rest)
  else if byte = 0x22 then
    (spell? rest).map fun spelled => (.string (spelled.octets.bind Bytes.toText?), spelled.rest)
  else if byte = 0x6e then (stripWord? [0x75, 0x6c, 0x6c] rest).map (Token.null, ·)
  else if byte = 0x74 then (stripWord? [0x72, 0x75, 0x65] rest).map (Token.bool true, ·)
  else if byte = 0x66 then (stripWord? [0x61, 0x6c, 0x73, 0x65] rest).map (Token.bool false, ·)
  else
    (readLiteral? (byte :: rest)).map fun (literal, rest) =>
      (.number (Number.ofLiteral? literal), rest)

theorem stripWord?_length {word text rest : Bytes} (h : stripWord? word text = some rest) :
    rest.length ≤ text.length := by
  induction word generalizing text with
  | nil => cases h; simp
  | cons w word ih =>
    cases text with
    | nil => cases h
    | cons t text =>
      unfold stripWord? at h
      split at h
      · have := ih h
        simp; omega
      · cases h

theorem Token.cut?_length {byte : UInt8} {text rest : Bytes} {token : Token}
    (h : Token.cut? byte text = some (token, rest)) : rest.length ≤ text.length := by
  unfold Token.cut? at h
  repeat' split at h
  all_goals try (cases h; exact Nat.le_refl _)
  all_goals
    simp only [Option.map_eq_some_iff, Prod.mk.injEq, Prod.exists] at h
  · obtain ⟨_, h, _, rfl⟩ := h
    exact Nat.le_of_lt (spell?_length h)
  · obtain ⟨_, h, _, rfl⟩ := h
    exact stripWord?_length h
  · obtain ⟨_, h, _, rfl⟩ := h
    exact stripWord?_length h
  · obtain ⟨_, h, _, rfl⟩ := h
    exact stripWord?_length h
  · obtain ⟨_, _, h, _, rfl⟩ := h
    have := readLiteral?_length h
    simp at this; omega

/-- The tokens of a text. -/
def Token.scan (text : Bytes) : List Token :=
  match text with
  | [] => []
  | byte :: rest =>
    if isBlank byte then scan rest
    else
      match h : Token.cut? byte rest with
      | none => [.junk]
      | some (token, rest') =>
        have := Token.cut?_length h
        token :: scan rest'
termination_by text.length
decreasing_by all_goals (simp only [List.length_cons]; omega)

end SealedEnvelope.Json
