import SealedEnvelope.Json.Basic
import SealedEnvelope.Text.Hex

/-!
# JSON tokens

The punctuation, literals, numbers and strings of a JSON text.

A number or a string may be well formed and still have no value: a number can be
too large for a double, and an escape can name half of a surrogate pair.  Such a
token carries `none`, because there are readers that only pass over it.  A text
that can not be cut any further ends in `Token.junk`.

A value is written as a list of tokens (`Json.tokens`), each of which has one
spelling (`Token.chars`); nothing stands between them.
-/

namespace SealedEnvelope.Json

/-- A piece of JSON text. -/
inductive Token where
  | leftBrace
  | rightBrace
  | leftBracket
  | rightBracket
  | comma
  | colon
  | null
  | bool (value : Bool)
  /-- A number, unless it is too large. -/
  | number (value : Option Number)
  /-- A string, unless its octets are no text. -/
  | string (text : Option String)
  /-- No token starts here. -/
  | junk

/-- A character as it is written in a string. -/
def escapeChar (c : Char) : List Char :=
  if c = '"' then ['\\', '"']
  else if c = '\\' then ['\\', '\\']
  else if c = '\x08' then ['\\', 'b']
  else if c = '\x0c' then ['\\', 'f']
  else if c = '\n' then ['\\', 'n']
  else if c = '\r' then ['\\', 'r']
  else if c = '\t' then ['\\', 't']
  else if c.toNat < 0x20 then
    ['\\', 'u', '0', '0', Text.Hex.digit (c.toNat / 16), Text.Hex.digit (c.toNat % 16)]
  else [c]

/-- The characters of a string, with its quotes. -/
def stringChars (text : String) : List Char :=
  '"' :: (text.toList.flatMap escapeChar ++ ['"'])

/-- The characters of a token. -/
def Token.chars : Token → List Char
  | .leftBrace => ['\x7b']
  | .rightBrace => ['\x7d']
  | .leftBracket => ['[']
  | .rightBracket => [']']
  | .comma => [',']
  | .colon => [':']
  | .null => ['n', 'u', 'l', 'l']
  | .bool true => ['t', 'r', 'u', 'e']
  | .bool false => ['f', 'a', 'l', 's', 'e']
  | .number (some n) => n.chars
  | .string (some text) => stringChars text
  | .number none | .string none | .junk => []


/-! ## The tokens of a value -/

mutual

/-- The tokens that write a value. -/
def tokens : Json → List Token
  | .null => [.null]
  | .bool b => [.bool b]
  | .number n => [.number (some n)]
  | .string text => [.string (some text)]
  | .array items => .leftBracket :: (itemTokens items ++ [.rightBracket])
  | .object members => .leftBrace :: (memberTokens members ++ [.rightBrace])

/-- The tokens between the brackets of an array. -/
def itemTokens : List Json → List Token
  | [] => []
  | [item] => item.tokens
  | item :: next :: rest => item.tokens ++ .comma :: itemTokens (next :: rest)

/-- The tokens between the braces of an object. -/
def memberTokens : List (String × Json) → List Token
  | [] => []
  | [(name, value)] => .string (some name) :: .colon :: value.tokens
  | (name, value) :: next :: rest =>
    .string (some name) :: .colon :: (value.tokens ++ .comma :: memberTokens (next :: rest))

end

/-- The text of a value, without any blanks. -/
def render (value : Json) : String := String.ofList (value.tokens.flatMap Token.chars)

end SealedEnvelope.Json
