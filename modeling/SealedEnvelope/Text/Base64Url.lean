import SealedEnvelope.Bytes
import SealedEnvelope.Decimal.Integer

/-!
# The base64url encoding

Three octets are four symbols of six bits each; a last piece of one or two
octets is two or three symbols, and nothing fills the text up.  Writing never
produces `=`.

## What reading accepts

Reading is stricter than "skip what is not a symbol" and laxer than "exactly what
writing produces".  The text is looked at in two parts: a *body*, whose length is
a multiple of eight, and a *tail* of at most eight symbols.  In the body every
character must be a symbol.  In the tail, `=` may stand in the last two places of
a group of four, but no symbol may follow one.  So the fill of other base64
writers is accepted although it is never written, and `AA=` is accepted too.  The
bits that the last symbol has to spare must be zero, which leaves each byte
string one spelling up to the fill.

Positions in errors count the octets of the text.
-/

namespace SealedEnvelope.Text.Base64Url

/-- Why a text is not base64url. -/
inductive Fault where
  /-- The octet `byte` at `offset` has no place there. -/
  | invalidByte (byte : UInt8) (offset : Nat)
  /-- One symbol is left over, which is not enough for an octet. -/
  | sixBitRemainder
  /-- The last symbol `byte`, at `offset`, has unused bits that are not zero. -/
  | invalidLastSymbol (byte : UInt8) (offset : Nat)
  deriving DecidableEq, Repr

/-- The text of a fault. -/
def Fault.message : Fault → String
  | .invalidByte byte offset =>
    "Invalid byte " ++ Decimal.natural byte.toNat ++ ", offset " ++ Decimal.natural offset ++ "."
  | .sixBitRemainder => "Encoded text cannot have a 6-bit remainder."
  | .invalidLastSymbol byte offset =>
    "Invalid last symbol " ++ Decimal.natural byte.toNat ++ ", offset " ++
      Decimal.natural offset ++ "."

/-- The symbol of a number below 64. -/
def symbol (n : Nat) : Char :=
  if n < 26 then Char.ofNat (65 + n)
  else if n < 52 then Char.ofNat (71 + n)
  else if n < 62 then Char.ofNat (n - 4)
  else if n = 62 then '-'
  else '_'

/-- The number of a symbol. -/
def value? (byte : UInt8) : Option Nat :=
  let n := byte.toNat
  if 65 ≤ n ∧ n ≤ 90 then some (n - 65)
  else if 97 ≤ n ∧ n ≤ 122 then some (n - 71)
  else if 48 ≤ n ∧ n ≤ 57 then some (n + 4)
  else if n = 45 then some 62
  else if n = 95 then some 63
  else none

/-- The fill character `=`. -/
def fill : UInt8 := 61

/-! ## Six bits at a time -/

/-- The numbers below 64 that stand for a byte string. -/
def sextets : Bytes → List Nat
  | [] => []
  | [a] => [a.toNat / 4, a.toNat % 4 * 16]
  | [a, b] => [a.toNat / 4, a.toNat % 4 * 16 + b.toNat / 16, b.toNat % 16 * 4]
  | a :: b :: c :: rest =>
    a.toNat / 4 :: (a.toNat % 4 * 16 + b.toNat / 16) ::
      (b.toNat % 16 * 4 + c.toNat / 64) :: c.toNat % 64 :: sextets rest

/-- The octets that the numbers stand for, `offset` being the position of the
first of them. -/
def octets (offset : Nat) : List Nat → Except Fault Bytes
  | [] => .ok []
  | [_] => .error .sixBitRemainder
  | [p, q] =>
    if q % 16 = 0 then .ok [UInt8.ofNat (p * 4 + q / 16)]
    else .error (.invalidLastSymbol (UInt8.ofNat (symbol q).toNat) (offset + 1))
  | [p, q, r] =>
    if r % 4 = 0 then .ok [UInt8.ofNat (p * 4 + q / 16), UInt8.ofNat (q % 16 * 16 + r / 4)]
    else .error (.invalidLastSymbol (UInt8.ofNat (symbol r).toNat) (offset + 2))
  | p :: q :: r :: s :: rest => do
    let bytes ← octets (offset + 4) rest
    .ok (UInt8.ofNat (p * 4 + q / 16) :: UInt8.ofNat (q % 16 * 16 + r / 4) ::
      UInt8.ofNat (r % 4 * 64 + s) :: bytes)

/-! ## Symbols -/

/-- The numbers of a text in which every character is a symbol. -/
def bodyValues (offset : Nat) : Bytes → Except Fault (List Nat)
  | [] => .ok []
  | byte :: rest =>
    match value? byte with
    | none => .error (.invalidByte byte offset)
    | some v => (bodyValues (offset + 1) rest).map (v :: ·)

/-- The numbers of the tail of a text.  `filled` is the position of the first
`=`, once there was one. -/
def tailValues (offset : Nat) (filled : Option Nat) : Bytes → Except Fault (List Nat)
  | [] => .ok []
  | byte :: rest =>
    if byte = fill then
      let first := filled.getD offset
      if offset % 4 < 2 then .error (.invalidByte fill first)
      else tailValues (offset + 1) (some first) rest
    else
      match filled with
      | some first => .error (.invalidByte fill first)
      | none =>
        match value? byte with
        | none => .error (.invalidByte byte offset)
        | some v => (tailValues (offset + 1) none rest).map (v :: ·)

/-- One octet more than a multiple of four can not be a text; a last octet that
is neither a symbol nor `=` is what is wrong with it. -/
def checkLength (bytes : Bytes) : Except Fault Unit :=
  if bytes.length % 4 = 1 then
    match bytes.getLast? with
    | some last =>
      if last = fill ∨ (value? last).isSome then .error .sixBitRemainder
      else .error (.invalidByte last (bytes.length - 1))
    | none => .ok ()
  else .ok ()

/-- The length of the body: the greatest multiple of eight that leaves a tail. -/
def bodyLength (length : Nat) : Nat := (length - 1) / 8 * 8

/-- The octets spelled by a text that is given as octets. -/
def decodeBytes (text : Bytes) : Except Fault Bytes := do
  checkLength text
  let split := bodyLength text.length
  let body ← bodyValues 0 (text.take split)
  let tail ← tailValues split none (text.drop split)
  octets 0 (body ++ tail)

/-- The byte string that a base64url text stands for. -/
def decode (text : String) : Except Fault Bytes := decodeBytes (Bytes.ofText text)

/-- A byte string in base64url, without fill. -/
def encode (bytes : Bytes) : String := String.ofList ((sextets bytes).map symbol)

end SealedEnvelope.Text.Base64Url
