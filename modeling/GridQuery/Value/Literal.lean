import GridQuery.Decimal.Shortest
import GridQuery.Text.Comma
import GridQuery.Value.Basic
/-!
# Values in a query text

A value is shown as plain text, and a query carries it as a literal: the shown text between single
quotes with every quote doubled, or bare where its kind allows it.
-/

namespace GridQuery

/-- Floats in a query text are written without an exponent, whole ones without a point, and of two
equally near shortest decimals the greater magnitude is taken. -/
def queryFloats : Decimal.FloatFormat := ⟨.up, fun _ => true, false⟩

/-- A float as shown, the special ones by name. -/
def showFloat (f : Float) : List Char :=
  if f.isNaN then "NaN".toList
  else if f.isInf then (if f < 0 then "-inf" else "inf").toList
  else (queryFloats.numeral f).text

namespace Value

mutual

/-- The value as plain text. mirrors `Value.fmt` -/
def shown : Value → List Char
  | .null => "null".toList
  | .bool b => (if b then "true" else "false").toList
  | .int i => Decimal.ofInt i.toInt
  | .float f => showFloat f
  | .string s => s.toList
  | .list items => '[' :: Text.commaList (shownItems items) ++ [']']
  | .struct fields => '{' :: Text.commaList (shownFields fields) ++ ['}']

/-- The items as plain text, one by one. -/
def shownItems : List Value → List (List Char)
  | [] => []
  | v :: vs => shown v :: shownItems vs

/-- The fields as plain text, one by one: the name, a colon and the value. -/
def shownFields : List (String × Value) → List (List Char)
  | [] => []
  | (name, v) :: rest => (name.toList ++ ':' :: ' ' :: shown v) :: shownFields rest

end

/-- The text with every single quote doubled. -/
def doubleQuotes (s : List Char) : List Char :=
  s.flatMap fun c => if c = '\'' then ['\'', '\''] else [c]

/-- The text as a literal between single quotes. -/
def quoted (s : List Char) : List Char := '\'' :: doubleQuotes s ++ ['\'']

/-- The value as a literal: quoted, unless it is null. mirrors `Value.to_oql_literal` -/
def literal : Value → List Char
  | .null => "NULL".toList
  | v => quoted v.shown

/-- The value as a literal of its own kind: booleans and finite numbers are bare, so that they
compare with fields of that kind.
mirrors `Value.to_typed_oql_literal` -/
def typedLiteral : Value → List Char
  | .bool b => (Value.bool b).shown
  | .int i => (Value.int i).shown
  | .float f => if f.isFinite then (Value.float f).shown else (Value.float f).literal
  | v => v.literal

end Value

/-- The values as a list of literals in parentheses. mirrors `in_list` -/
def literalList (values : List Value) : List Char :=
  '(' :: Text.commaList (values.map Value.literal) ++ [')']

/-- The values as a list of literals of their own kinds, in parentheses. mirrors `typed_in_list` -/
def typedLiteralList (values : List Value) : List Char :=
  '(' :: Text.commaList (values.map Value.typedLiteral) ++ [')']

end GridQuery
