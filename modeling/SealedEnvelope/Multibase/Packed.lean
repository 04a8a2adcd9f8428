import SealedEnvelope.Bytes

/-!
# Byte strings as packed digits

Each digit stands for a fixed number of bits, and the bits of the digits, the
most significant first, are cut into octets.  The bits of the last digit that no
octet needs are zero, and there are fewer of them than one digit has.

A padded text consists of blocks whose digits fill whole octets; a block may end
in `=` signs that stand for missing digits.
-/

namespace SealedEnvelope.Multibase.Packed

/-- The low `width` bits of a number, the most significant first. -/
def bitsOfDigit : (width digit : Nat) → List Bool
  | 0, _ => []
  | width + 1, digit => digit.testBit width :: bitsOfDigit width digit

/-- The number that bits stand for, the most significant first. -/
def numberOfBits (bits : List Bool) : Nat := bits.foldl (fun n b => n * 2 + b.toNat) 0

/-- The octets spelled by bits.  Fewer bits than `width` may be left over, and
they must all be zero. -/
def octets? (width : Nat) : List Bool → Option Bytes
  | a :: b :: c :: d :: e :: f :: g :: h :: rest =>
    (octets? width rest).map (UInt8.ofNat (numberOfBits [a, b, c, d, e, f, g, h]) :: ·)
  | left => if left.length < width ∧ left.all (! ·) then some [] else none

/-- The octets spelled by digits of `width` bits each. -/
def bytes? (width : Nat) (digits : List Nat) : Option Bytes :=
  octets? width (digits.flatMap (bitsOfDigit width))

/-- The text of a block in front of its `=` signs. -/
def withoutFill (block : List Char) : List Char :=
  (block.reverse.dropWhile (· == '=')).reverse

/-- The octets of one block of a padded text. -/
def block? (width : Nat) (digit? : Char → Option Nat) (block : List Char) : Option Bytes :=
  let text := withoutFill block
  if text.isEmpty then none else text.mapM digit? >>= bytes? width

/-- The octets of a padded text, whose blocks are `size + 1` characters long. -/
def padded? (width size : Nat) (digit? : Char → Option Nat) (text : List Char) : Option Bytes :=
  match text with
  | [] => some []
  | c :: rest =>
    if rest.length < size then none
    else do
      let first ← block? width digit? (c :: rest.take size)
      let others ← padded? width size digit? (rest.drop size)
      some (first ++ others)
termination_by text.length
decreasing_by simp only [List.length_cons, List.length_drop]; omega

end SealedEnvelope.Multibase.Packed
