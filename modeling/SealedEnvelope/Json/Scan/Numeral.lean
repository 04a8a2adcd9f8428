import SealedEnvelope.Bytes
import SealedEnvelope.Json.Number

/-!
# Reading the numbers of a JSON text

A number has digits in front of the point, of which a leading zero stands alone,
and may have a fraction and an exponent, each with at least one digit.
-/

namespace SealedEnvelope.Json

/-- The number of a decimal digit. -/
def decimalDigit? (byte : UInt8) : Option Nat :=
  if 48 ≤ byte ∧ byte ≤ 57 then some (byte.toNat - 48) else none

/-- The digits at the start of a text, and what follows them. -/
def readDigits : Bytes → List Nat × Bytes
  | [] => ([], [])
  | byte :: rest =>
    match decimalDigit? byte with
    | none => ([], byte :: rest)
    | some d => let (ds, rest') := readDigits rest; (d :: ds, rest')

/-- Reads the digits behind a point; there must be one.  A text that starts with no
point has no fraction. -/
def readFraction? : Bytes → Option (List Nat × Bytes)
  | [] => some ([], [])
  | byte :: rest =>
    if byte = 0x2e then
      let (ds, rest') := readDigits rest
      if ds.isEmpty then none else some (ds, rest')
    else some ([], byte :: rest)

/-- The sign at the start of an exponent: whether it is negative, and what follows. -/
def readSign : Bytes → Bool × Bytes
  | [] => (false, [])
  | byte :: rest =>
    if byte = 0x2d then (true, rest)
    else if byte = 0x2b then (false, rest)
    else (false, byte :: rest)

/-- Reads an exponent, which needs a digit.  A text that starts with no `e` has no
exponent. -/
def readExponent? : Bytes → Option (Option Int × Bytes)
  | [] => some (none, [])
  | byte :: rest =>
    if byte = 0x65 ∨ byte = 0x45 then
      let (negative, rest) := readSign rest
      let (ds, rest') := readDigits rest
      if ds.isEmpty then none
      else
        let n : Int := Positional.value 10 ds
        some (some (if negative then -n else n), rest')
    else some (none, byte :: rest)

/-- Reads the digits in front of a point.  There must be one, and a zero stands
alone. -/
def readWhole? (text : Bytes) : Option (List Nat × Bytes) :=
  match readDigits text with
  | ([], _) => none
  | (0 :: _ :: _, _) => none
  | (ds, rest) => some (ds, rest)

/-- Reads a number without its minus sign. -/
def readUnsigned? (negative : Bool) (text : Bytes) : Option (Literal × Bytes) := do
  let (whole, rest) ← readWhole? text
  let (fraction, rest) ← readFraction? rest
  let (exponent, rest) ← readExponent? rest
  some (⟨negative, whole, fraction, exponent⟩, rest)

/-- Reads a number. -/
def readLiteral? : Bytes → Option (Literal × Bytes)
  | [] => none
  | byte :: rest =>
    if byte = 0x2d then readUnsigned? true rest else readUnsigned? false (byte :: rest)

theorem readDigits_length (text : Bytes) :
    (readDigits text).1.length + (readDigits text).2.length = text.length := by
  induction text with
  | nil => rfl
  | cons byte rest ih =>
    unfold readDigits
    split
    · simp
    · simp; omega

theorem readWhole?_length {text rest : Bytes} {ds : List Nat}
    (h : readWhole? text = some (ds, rest)) : rest.length < text.length := by
  have length := readDigits_length text
  unfold readWhole? at h
  split at h
  · cases h
  · cases h
  · next found _ hne _ heq =>
    simp only [Option.some.injEq, Prod.mk.injEq] at h
    obtain ⟨rfl, rfl⟩ := h
    rw [heq] at length
    cases found with
    | nil => exact absurd rfl hne
    | cons => simp at length; omega

theorem readFraction?_length {text rest : Bytes} {ds : List Nat}
    (h : readFraction? text = some (ds, rest)) : rest.length ≤ text.length := by
  unfold readFraction? at h
  split at h
  · cases h; simp
  · next byte tail =>
    have length := readDigits_length tail
    split at h
    · dsimp only at h
      split at h
      · cases h
      · cases h; simp; omega
    · cases h; simp

theorem readSign_length (text : Bytes) : (readSign text).2.length ≤ text.length := by
  unfold readSign
  split
  · simp
  · split
    · simp
    · split <;> simp

theorem readExponent?_length {text rest : Bytes} {e : Option Int}
    (h : readExponent? text = some (e, rest)) : rest.length ≤ text.length := by
  unfold readExponent? at h
  split at h
  · cases h; simp
  · next byte tail =>
    have sign := readSign_length tail
    have length := readDigits_length (readSign tail).2
    split at h
    · dsimp only at h
      split at h
      · cases h
      · cases h; simp; omega
    · cases h; simp

theorem readUnsigned?_length {negative : Bool} {text rest : Bytes} {literal : Literal}
    (h : readUnsigned? negative text = some (literal, rest)) : rest.length < text.length := by
  simp only [readUnsigned?, Option.bind_eq_bind, Option.bind_eq_some_iff, Option.some.injEq,
    Prod.mk.injEq, Prod.exists] at h
  obtain ⟨_, _, h₁, _, _, h₂, _, _, h₃, _, rfl⟩ := h
  have := readWhole?_length h₁
  have := readFraction?_length h₂
  have := readExponent?_length h₃
  omega

theorem readLiteral?_length {text rest : Bytes} {literal : Literal}
    (h : readLiteral? text = some (literal, rest)) : rest.length < text.length := by
  unfold readLiteral? at h
  split at h
  · cases h
  · split at h
    · have := readUnsigned?_length h
      simp; omega
    · exact readUnsigned?_length h

end SealedEnvelope.Json
