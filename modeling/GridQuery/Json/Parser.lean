import GridQuery.Json.Basic
/-!
# Reading JSON text

A text is one value with blanks around it and around every token. Each reader takes its part from
the front of the text and hands on the rest. The depth of a text is not bounded here; a limit is a
matter of reading the value, not the text.
-/

namespace GridQuery.Json

/-- A reader of the front of a text: what was read, and the rest. -/
abbrev Reader (α : Type) : Type := List Char → Option (α × List Char)

/-- Whether the character may stand between tokens. -/
def isSpace (c : Char) : Bool := c == ' ' || c == '\t' || c == '\n' || c == '\r'

/-- The text without the blanks before its first token. -/
def skipSpaces (s : List Char) : List Char := s.dropWhile isSpace

/-- The number that a hexadecimal digit stands for, in either case. -/
def hexValue? (c : Char) : Option Nat :=
  if c.isDigit then some (c.toNat - '0'.toNat)
  else if 'a' ≤ c && c ≤ 'f' then some (c.toNat - 'a'.toNat + 10)
  else if 'A' ≤ c && c ≤ 'F' then some (c.toNat - 'A'.toNat + 10)
  else none

/-- The code unit written by four hexadecimal digits. -/
def unit? (a b c d : Char) : Option Nat := do
  some ((((← hexValue? a) * 16 + (← hexValue? b)) * 16 + (← hexValue? c)) * 16 + (← hexValue? d))

/-- The code point that a backslash and one further character stand for. -/
def shortEscape? : Char → Option Nat
  | '"' => some 0x22
  | '\\' => some 0x5c
  | '/' => some 0x2f
  | 'b' => some 8
  | 't' => some 9
  | 'n' => some 10
  | 'f' => some 12
  | 'r' => some 13
  | _ => none

/-- Reads a string behind its opening quote. -/
def readString : Reader (List Nat)
  | [] => none
  | '"' :: s => some ([], s)
  | '\\' :: 'u' :: a :: b :: c :: d :: s => do
    let n ← unit? a b c d
    let (codes, rest) ← readString s
    some (n :: codes, rest)
  | '\\' :: e :: s => do
    let n ← shortEscape? e
    let (codes, rest) ← readString s
    some (n :: codes, rest)
  | c :: s => do
    if c.toNat < 0x20 || c == '\\' then none
    let (codes, rest) ← readString s
    some (c.toNat :: codes, rest)

/-- Reads a row of digits, at least one. -/
def readDigits : Reader (List Char) := fun s =>
  match s.takeWhile Char.isDigit with
  | [] => none
  | digits => some (digits, s.dropWhile Char.isDigit)

/-- Reads the digits before the point. A zero stands alone. -/
def readWhole : Reader (List Char) := fun s => do
  let (digits, rest) ← readDigits s
  if digits.head? = some '0' && digits ≠ ['0'] then none
  some (digits, rest)

/-- Reads a point and the digits behind it, if a point comes next. -/
def readFraction : Reader (List Char)
  | '.' :: s => readDigits s
  | s => some ([], s)

/-- Reads the sign of an exponent: whether it is negative. -/
def readSign : List Char → Bool × List Char
  | '+' :: s => (false, s)
  | '-' :: s => (true, s)
  | s => (false, s)

/-- Reads an exponent, if one comes next. -/
def readExponent : Reader (Option Int) := fun s =>
  match s with
  | c :: rest =>
    if c == 'e' || c == 'E' then do
      let (negative, rest) := readSign rest
      let (digits, rest) ← readDigits rest
      let n : Int := Nat.ofDigitChars 10 digits 0
      some (some (if negative then -n else n), rest)
    else some (none, s)
  | [] => some (none, s)

/-- Reads the parts of a number behind its sign. -/
def readUnsigned (negative : Bool) : Reader Decimal.Numeral := fun s => do
  let (whole, rest) ← readWhole s
  let (fraction, rest) ← readFraction rest
  let (exponent, rest) ← readExponent rest
  some (⟨negative, whole, fraction, exponent⟩, rest)

/-- Reads a number. -/
def readNumber : Reader Decimal.Numeral
  | '-' :: s => readUnsigned true s
  | s => readUnsigned false s

/-- Reads the given word. -/
def readWord (word : String) : Reader Unit := fun s =>
  if word.toList.isPrefixOf s then some ((), s.drop word.length) else none

mutual

/-- Reads a value, calling itself at most `fuel` deep. -/
def readValue : (fuel : Nat) → Reader Json
  | 0, _ => none
  | fuel + 1, s =>
    match skipSpaces s with
    | [] => none
    | c :: rest =>
      if c = '"' then (readString rest).map fun (codes, rest) => (.string codes, rest)
      else if c = '[' then
        match skipSpaces rest with
        | ']' :: rest => some (.array [], rest)
        | rest => (readItems fuel rest).map fun (items, rest) => (.array items, rest)
      else if c = '\x7b' then
        match skipSpaces rest with
        | '\x7d' :: rest => some (.object [], rest)
        | rest => (readMembers fuel rest).map fun (members, rest) => (.object members, rest)
      else if c = 'n' then (readWord "null" (c :: rest)).map fun r => (.null, r.2)
      else if c = 't' then (readWord "true" (c :: rest)).map fun r => (.bool true, r.2)
      else if c = 'f' then (readWord "false" (c :: rest)).map fun r => (.bool false, r.2)
      else (readNumber (c :: rest)).map fun (n, rest) => (.number n, rest)

/-- Reads the items of an array that has one, up to its closing bracket. -/
def readItems : (fuel : Nat) → Reader (List Json)
  | 0, _ => none
  | fuel + 1, s => do
    let (item, rest) ← readValue fuel s
    match skipSpaces rest with
    | ',' :: rest =>
      let (items, rest) ← readItems fuel rest
      some (item :: items, rest)
    | ']' :: rest => some ([item], rest)
    | _ => none

/-- Reads the members of an object that has one, up to its closing brace. -/
def readMembers : (fuel : Nat) → Reader (List (List Nat × Json))
  | 0, _ => none
  | fuel + 1, s =>
    match skipSpaces s with
    | '"' :: rest => do
      let (name, rest) ← readString rest
      match skipSpaces rest with
      | ':' :: rest =>
        let (content, rest) ← readValue fuel rest
        match skipSpaces rest with
        | ',' :: rest =>
          let (members, rest) ← readMembers fuel rest
          some ((name, content) :: members, rest)
        | '\x7d' :: rest => some ([(name, content)], rest)
        | _ => none
      | _ => none
    | _ => none

end

/-- The value that a text writes. Two calls at most are made for each character of it. -/
def parse? (s : List Char) : Option Json :=
  match readValue (2 * s.length + 1) s with
  | some (j, rest) => if skipSpaces rest = [] then some j else none
  | none => none

end GridQuery.Json
