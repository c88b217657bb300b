import PostfixRules.Json.Basic
import PostfixRules.Number.Style

/-!
# Writing JSON documents

Values are written without blanks. In quoted texts only the quote, the backslash and the control
characters below `0x20` are escaped. Every function writes in front of what is to follow, so that
nothing is copied twice.
-/

namespace PostfixRules.Json

/-- A hexadecimal digit in lower case. -/
def hexDigit (n : Nat) : Char :=
  if n < 10 then Char.ofNat (48 + n) else Char.ofNat (87 + n)

/-- The escaped form of a character in a quoted text. -/
def escapeChar (c : Char) : List Char :=
  if c = '"' then ['\\', '"']
  else if c = '\\' then ['\\', '\\']
  else if c = '\x08' then ['\\', 'b']
  else if c = '\x0c' then ['\\', 'f']
  else if c = '\n' then ['\\', 'n']
  else if c = '\r' then ['\\', 'r']
  else if c = '\t' then ['\\', 't']
  else if c.toNat < 0x20 then
    ['\\', 'u', '0', '0', hexDigit (c.toNat / 16), hexDigit (c.toNat % 16)]
  else [c]

/-- Write a quoted text. -/
def writeText (text : String) (rest : List Char) : List Char :=
  '"' :: text.toList.foldr (fun c after => escapeChar c ++ after) ('"' :: rest)

/-- The text of a number. -/
def Number.text : Number → List Char
  | .whole n => Text.signedDecimal n.value
  | .float x => x.text .json

mutual

/-- Write a value. -/
def writeOnto : Json → List Char → List Char
  | .null, rest => 'n' :: 'u' :: 'l' :: 'l' :: rest
  | .bool true, rest => 't' :: 'r' :: 'u' :: 'e' :: rest
  | .bool false, rest => 'f' :: 'a' :: 'l' :: 's' :: 'e' :: rest
  | .number n, rest => n.text ++ rest
  | .string s, rest => writeText s rest
  | .array [], rest => '[' :: ']' :: rest
  | .array (v :: vs), rest => '[' :: writeOnto v (writeElements vs rest)
  | .object [], rest => '\x7b' :: '\x7d' :: rest
  | .object ((k, v) :: ms), rest =>
    '\x7b' :: writeText k (':' :: writeOnto v (writeMembers ms rest))

/-- Write the other elements of an array and close it. -/
def writeElements : List Json → List Char → List Char
  | [], rest => ']' :: rest
  | v :: vs, rest => ',' :: writeOnto v (writeElements vs rest)

/-- Write the other members of an object and close it. -/
def writeMembers : List (String × Json) → List Char → List Char
  | [], rest => '\x7d' :: rest
  | (k, v) :: ms, rest => ',' :: writeText k (':' :: writeOnto v (writeMembers ms rest))

end

/-- The document of a value. -/
def write (value : Json) : String :=
  String.ofList (writeOnto value [])

end PostfixRules.Json
