import SealedEnvelope.Multibase.Number
import SealedEnvelope.Multibase.Packed
import SealedEnvelope.Multibase.Pictures
import SealedEnvelope.Multibase.Triples

/-!
# Self-describing text encodings

The first character of a multibase text says how the rest of it spells a byte
string.  There are five ways: as a number (`Multibase.Number`), as packed bits
(`Multibase.Packed`), as base 45 triples (`Multibase.Triples`), as pictures, one
for each octet, and as the UTF-8 octets of the text itself.

Only one of the encodings is ever written: base 58 with the code `z`
(`Multibase.encodeBase58`).
-/

namespace SealedEnvelope.Multibase

/-- Why a text is not multibase. -/
inductive Fault where
  /-- No encoding has this code. -/
  | unknownBase (code : Char)
  /-- There is no code, or the rest is not a text of the encoding. -/
  | invalidText
  deriving DecidableEq, Repr

/-- The text of a fault. -/
def Fault.message : Fault → String
  | .unknownBase code => "Unknown base code: " ++ String.ofList [code]
  | .invalidText => "Invalid base string"

/-- How the digits of a text spell a byte string. -/
inductive Encoding where
  /-- The text of one number, in the base that the alphabet has characters for. -/
  | number (alphabet : String)
  /-- Digits of `width` bits each. -/
  | packed (width : Nat) (alphabet : String)
  /-- Digits of `width` bits each, in blocks of `size + 1` characters that `=` fills up. -/
  | padded (width size : Nat) (alphabet : String)
  /-- Base 45 digits. -/
  | triples (alphabet : String)
  /-- One character for each octet. -/
  | pictures (alphabet : String)
  /-- The octets of the text itself. -/
  | verbatim

/-! ## Alphabets -/

/-- Base 58, capital letters first. -/
def base58 : String := "123456789ABCDEFGHJKLMNPQRSTUVWXYZabcdefghijkmnopqrstuvwxyz"

/-- Base 58, small letters first. -/
def base58Small : String := "123456789abcdefghijkmnopqrstuvwxyzABCDEFGHJKLMNPQRSTUVWXYZ"

/-- Digits and letters. -/
def base36 : String := "0123456789abcdefghijklmnopqrstuvwxyz"

/-- Hexadecimal digits. -/
def base16 : String := "0123456789abcdef"

/-- Base 32 with letters first. -/
def base32 : String := "abcdefghijklmnopqrstuvwxyz234567"

/-- Base 32 with digits first. -/
def base32Hex : String := "0123456789abcdefghijklmnopqrstuv"

/-- Base 32 with the characters that are easiest to tell apart. -/
def base32Human : String := "ybndrfg8ejkmcpqxot1uwisza345h769"

/-- Base 64. -/
def base64 : String := "ABCDEFGHIJKLMNOPQRSTUVWXYZabcdefghijklmnopqrstuvwxyz0123456789+/"

/-- Base 64 with characters that are safe in a URL. -/
def base64Url : String := "ABCDEFGHIJKLMNOPQRSTUVWXYZabcdefghijklmnopqrstuvwxyz0123456789-_"

/-- Base 45. -/
def base45 : String := "0123456789ABCDEFGHIJKLMNOPQRSTUVWXYZ $%*+-./:"

/-! ## Encodings by code -/

/-- The encoding for a code, and whether its letters may be of either case; then
the alphabet holds small letters only. -/
def encoding? (code : Char) : Option (Encoding × Bool) :=
  match code with
  | '\x00' => some (.verbatim, false)
  | '0' => some (.packed 1 "01", false)
  | '7' => some (.packed 3 "01234567", false)
  | '9' => some (.number "0123456789", false)
  | 'f' | 'F' => some (.packed 4 base16, true)
  | 'b' | 'B' => some (.packed 5 base32, true)
  | 'c' | 'C' => some (.padded 5 7 base32, true)
  | 'v' | 'V' => some (.packed 5 base32Hex, true)
  | 't' | 'T' => some (.padded 5 7 base32Hex, true)
  | 'h' => some (.packed 5 base32Human, false)
  | 'k' | 'K' => some (.number base36, true)
  | 'z' => some (.number base58, false)
  | 'Z' => some (.number base58Small, false)
  | 'm' => some (.packed 6 base64, false)
  | 'M' => some (.padded 6 3 base64, false)
  | 'u' => some (.packed 6 base64Url, false)
  | 'U' => some (.padded 6 3 base64Url, false)
  | 'R' => some (.triples (base45.map Char.toLower), true)
  | '🚀' => some (.pictures Pictures.alphabet, false)
  | _ => none

/-- The place of a character in an alphabet. -/
def digit? (alphabet : String) (anyCase : Bool) (c : Char) : Option Nat :=
  alphabet.toList.idxOf? (if anyCase then c.toLower else c)

/-- The byte string that the digits of an encoding spell. -/
def Encoding.decode? (encoding : Encoding) (anyCase : Bool) (text : List Char) : Option Bytes :=
  match encoding with
  | .number alphabet => (text.mapM (digit? alphabet anyCase)).map (Number.bytes alphabet.length)
  | .packed width alphabet => text.mapM (digit? alphabet anyCase) >>= Packed.bytes? width
  | .padded width size alphabet => Packed.padded? width size (digit? alphabet anyCase) text
  | .triples alphabet => text.mapM (digit? alphabet anyCase) >>= Triples.bytes?
  | .pictures alphabet => (text.mapM (digit? alphabet anyCase)).map (·.map UInt8.ofNat)
  | .verbatim => some (Bytes.ofText (String.ofList text))

/-- The byte string that a multibase text spells. -/
def decode (text : String) : Except Fault Bytes :=
  match text.toList with
  | [] => .error .invalidText
  | code :: digits =>
    match encoding? code with
    | none => .error (.unknownBase code)
    | some (encoding, anyCase) =>
      match encoding.decode? anyCase digits with
      | none => .error .invalidText
      | some bytes => .ok bytes

/-- The character of a base 58 digit. -/
def base58Char (digit : Nat) : Char := base58.toList.getD digit '1'

/-- A byte string in base 58, without its code. -/
def base58Chars (bytes : Bytes) : List Char := (Number.digits 58 bytes).map base58Char

/-- A byte string as a multibase text in base 58. -/
def encodeBase58 (bytes : Bytes) : String := String.ofList ('z' :: base58Chars bytes)

end SealedEnvelope.Multibase
