import GridQuery.Json.Basic
/-!
# JSON text

Values are written without any blanks. Characters stand for themselves, except for the quote, the
backslash and the control characters below U+0020.
-/

namespace GridQuery.Json

/-- The hexadecimal digit of a number below sixteen. -/
def hexDigit (n : Nat) : Char := Nat.digitChar n

/-- A code unit as four hexadecimal digits behind `\u`. -/
def unitEscape (n : Nat) : List Char :=
  ['\\', 'u', hexDigit (n / 4096 % 16), hexDigit (n / 256 % 16), hexDigit (n / 16 % 16),
    hexDigit (n % 16)]

/-- A code point as it is written between quotes. -/
def escaped (n : Nat) : List Char :=
  if n = 0x22 then ['\\', '"']
  else if n = 0x5c then ['\\', '\\']
  else if n = 8 then ['\\', 'b']
  else if n = 9 then ['\\', 't']
  else if n = 10 then ['\\', 'n']
  else if n = 12 then ['\\', 'f']
  else if n = 13 then ['\\', 'r']
  else if n < 0x20 || isHighHalf n || isLowHalf n then unitEscape n
  else [Char.ofNat n]

/-- A string between quotes. -/
def stringText (codes : List Nat) : List Char := '"' :: codes.flatMap escaped ++ ['"']

/-- Texts one after the other with a comma between them. -/
def commaSeparated (parts : List (List Char)) : List Char := List.intercalate [','] parts

mutual

/-- The value in writing. -/
def render : Json → List Char
  | .null => "null".toList
  | .bool b => (if b then "true" else "false").toList
  | .number n => n.text
  | .string codes => stringText codes
  | .array items => '[' :: commaSeparated (renderItems items) ++ [']']
  | .object members => '\x7b' :: commaSeparated (renderMembers members) ++ ['\x7d']

/-- The items in writing, one by one. -/
def renderItems : List Json → List (List Char)
  | [] => []
  | j :: js => render j :: renderItems js

/-- The members in writing, one by one. -/
def renderMembers : List (List Nat × Json) → List (List Char)
  | [] => []
  | (name, j) :: rest => (stringText name ++ ':' :: render j) :: renderMembers rest

end

end GridQuery.Json
