import SealedEnvelope.Bytes

/-!
# Hexadecimal text

Two lower-case digits for each octet.
-/

namespace SealedEnvelope.Text.Hex

/-- The digit for a number below sixteen. -/
def digit (n : Nat) : Char :=
  if n < 10 then Char.ofNat (48 + n) else Char.ofNat (87 + n)

/-- The characters that write a byte string. -/
def chars (bytes : Bytes) : List Char :=
  bytes.flatMap fun b => [digit (b.toNat / 16), digit (b.toNat % 16)]

/-- A byte string in lower-case hexadecimal digits. -/
def encode (bytes : Bytes) : String := String.ofList (chars bytes)

/-- The number a hexadecimal digit of either case stands for. -/
def value? (c : UInt8) : Option Nat :=
  if 48 ≤ c ∧ c ≤ 57 then some (c.toNat - 48)
  else if 97 ≤ c ∧ c ≤ 102 then some (c.toNat - 87)
  else if 65 ≤ c ∧ c ≤ 70 then some (c.toNat - 55)
  else none

end SealedEnvelope.Text.Hex
