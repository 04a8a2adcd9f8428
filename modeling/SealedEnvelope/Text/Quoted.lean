import SealedEnvelope.Positional
import SealedEnvelope.Text.Hex
import SealedEnvelope.Text.Hidden

/-!
# Quoted text

Text between double quotes, for error texts and for descriptions of values.  A
quote, a backslash and the usual line controls are written with a backslash;
every other character that does not show on its own is written by its number, and
all others stand for themselves.
-/

namespace SealedEnvelope.Text.Quoted

/-- A positive number in hexadecimal digits. -/
def hexNumber (n : Nat) : List Char := (Positional.digits 16 n).map Hex.digit

/-- A character as it stands between quotes. -/
def escape (c : Char) : List Char :=
  if c = '"' then ['\\', '"']
  else if c = '\\' then ['\\', '\\']
  else if c = '\n' then ['\\', 'n']
  else if c = '\r' then ['\\', 'r']
  else if c = '\t' then ['\\', 't']
  else if c.toNat = 0 then ['\\', '0']
  else if Hidden.isHidden c then ['\\', 'u', '\x7b'] ++ hexNumber c.toNat ++ ['\x7d']
  else [c]

/-- A text between quotes. -/
def encode (text : String) : String :=
  String.ofList ('"' :: (text.toList.flatMap escape ++ ['"']))

end SealedEnvelope.Text.Quoted
