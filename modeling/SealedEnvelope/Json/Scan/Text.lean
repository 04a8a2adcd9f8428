import SealedEnvelope.Bytes
import SealedEnvelope.Text.Hex

/-!
# Reading the strings of a JSON text

A string is read octet by octet up to its closing quote.  Control characters and
unknown escapes end the reading.  An escape that names half of a surrogate pair
does not: it spoils the octets of the string (`Spelled.octets` is `none`) but the
string still has an end.
-/

namespace SealedEnvelope.Json

/-- The number of four hexadecimal digits. -/
def codeUnit? (a b c d : UInt8) : Option Nat := do
  let p ← Text.Hex.value? a
  let q ← Text.Hex.value? b
  let r ← Text.Hex.value? c
  let s ← Text.Hex.value? d
  some (((p * 16 + q) * 16 + r) * 16 + s)

/-- Whether a code unit opens a surrogate pair. -/
def isLeading (unit : Nat) : Bool := 0xd800 ≤ unit && unit < 0xdc00

/-- Whether a code unit closes a surrogate pair. -/
def isTrailing (unit : Nat) : Bool := 0xdc00 ≤ unit && unit < 0xe000

/-- The character of a surrogate pair. -/
def surrogatePair (leading trailing : Nat) : Char :=
  Char.ofNat (0x10000 + (leading - 0xd800) * 0x400 + (trailing - 0xdc00))

/-- The octet that a backslash and one more octet stand for. -/
def simpleEscape? (byte : UInt8) : Option UInt8 :=
  if byte = 0x22 ∨ byte = 0x5c ∨ byte = 0x2f then some byte
  else if byte = 0x62 then some 0x08
  else if byte = 0x66 then some 0x0c
  else if byte = 0x6e then some 0x0a
  else if byte = 0x72 then some 0x0d
  else if byte = 0x74 then some 0x09
  else none

/-- The code unit of four digits at the start of a text, and what follows them. -/
def readUnit? : Bytes → Option (Nat × Bytes)
  | a :: b :: c :: d :: rest => (codeUnit? a b c d).map (·, rest)
  | _ => none

/-- The code unit of an escape `\uXXXX` that closes a surrogate pair, if the text
starts with one. -/
def readTrailing? : Bytes → Option (Nat × Bytes)
  | slash :: letter :: rest =>
    if slash = 0x5c ∧ letter = 0x75 then
      (readUnit? rest).filter fun (unit, _) => isTrailing unit
    else none
  | _ => none

/-- Reads an escape from behind its backslash: its octets, if they are defined, and
what follows. -/
def readEscape? : Bytes → Option (Option Bytes × Bytes)
  | [] => none
  | byte :: rest =>
    if byte = 0x75 then
      match readUnit? rest with
      | none => none
      | some (unit, rest) =>
        if isLeading unit then
          match readTrailing? rest with
          | some (next, rest) => some (String.utf8EncodeChar (surrogatePair unit next), rest)
          | none => some (none, rest)
        else if isTrailing unit then some (none, rest)
        else some (String.utf8EncodeChar (Char.ofNat unit), rest)
    else (simpleEscape? byte).map fun octet => (some [octet], rest)

theorem readUnit?_length {text rest : Bytes} {unit : Nat}
    (h : readUnit? text = some (unit, rest)) : rest.length ≤ text.length := by
  unfold readUnit? at h
  split at h
  · simp only [Option.map_eq_some_iff, Prod.mk.injEq] at h
    obtain ⟨_, _, _, rfl⟩ := h
    simp; omega
  · cases h

theorem readTrailing?_length {text rest : Bytes} {unit : Nat}
    (h : readTrailing? text = some (unit, rest)) : rest.length ≤ text.length := by
  unfold readTrailing? at h
  split at h
  · split at h
    · have := readUnit?_length (Option.filter_eq_some_iff.1 h).1
      simp; omega
    · cases h
  · cases h

/-- An escape is not empty. -/
theorem readEscape?_length {text rest : Bytes} {octets : Option Bytes}
    (h : readEscape? text = some (octets, rest)) : rest.length < text.length := by
  unfold readEscape? at h
  split at h
  · cases h
  · split at h
    · split at h
      · cases h
      · next hunit =>
        have := readUnit?_length hunit
        split at h
        · split at h
          · next htrail =>
            have := readTrailing?_length htrail
            cases h; simp; omega
          · cases h; simp; omega
        · split at h <;> cases h <;> simp <;> omega
    · simp only [Option.map_eq_some_iff, Prod.mk.injEq] at h
      obtain ⟨_, _, _, rfl⟩ := h
      simp

/-- What was read of a string: its octets, if they are defined, and the text after
the closing quote. -/
structure Spelled where
  octets : Option Bytes
  rest : Bytes

/-- The same with octets in front, undefined if these are. -/
def Spelled.after (front : Option Bytes) (spelled : Spelled) : Spelled :=
  ⟨front.bind fun octets => spelled.octets.map (octets ++ ·), spelled.rest⟩

/-- Reads a string from behind its opening quote. -/
def spell? (text : Bytes) : Option Spelled :=
  match text with
  | [] => none
  | byte :: rest =>
    if byte = 0x22 then some ⟨some [], rest⟩
    else if byte = 0x5c then
      match h : readEscape? rest with
      | none => none
      | some (octets, rest') =>
        have := readEscape?_length h
        (spell? rest').map (·.after octets)
    else if byte < 0x20 then none
    else (spell? rest).map (·.after (some [byte]))
termination_by text.length
decreasing_by all_goals (simp only [List.length_cons]; omega)

/-- A string ends behind its opening quote at the earliest. -/
theorem spell?_length {text : Bytes} {spelled : Spelled} (h : spell? text = some spelled) :
    spelled.rest.length < text.length := by
  fun_induction spell? text generalizing spelled with
  | case1 => cases h
  | case2 => cases h; simp
  | case3 => cases h
  | case4 rest octets rest' _ _ _ ih =>
    simp only [Option.map_eq_some_iff] at h
    obtain ⟨inner, hi, rfl⟩ := h
    have := ih hi
    simp only [Spelled.after, List.length_cons]
    omega
  | case5 => cases h
  | case6 byte rest _ _ _ ih =>
    simp only [Option.map_eq_some_iff] at h
    obtain ⟨inner, hi, rfl⟩ := h
    have := ih hi
    simp only [Spelled.after, List.length_cons]
    omega

end SealedEnvelope.Json
