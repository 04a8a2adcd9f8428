import SealedEnvelope.Bytes

/-!
# Byte pairs as three digits

In base 45 two octets are three digits, the least significant first, and a last
single octet is two digits.  Of a last pair of digits only the low octet counts.
-/

namespace SealedEnvelope.Multibase.Triples

/-- The octets of a list of base 45 digits. -/
def bytes? : List Nat → Option Bytes
  | [] => some []
  | [_] => none
  | [a, b] => some [UInt8.ofNat (a + 45 * b)]
  | a :: b :: c :: rest =>
    let n := a + 45 * b + 2025 * c
    if n < 65536 then
      (bytes? rest).map fun others => UInt8.ofNat (n / 256) :: UInt8.ofNat n :: others
    else none

end SealedEnvelope.Multibase.Triples
