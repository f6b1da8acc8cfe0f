import GridQuery.Json.Number
import GridQuery.ResultSet
/-!
# Values as JSON

A value is written together with its kind: `"Null"`, and otherwise an object with the kind as its
only name. Reading counts the arrays and objects around a value and gives up when they are too deep.
-/

namespace GridQuery

namespace Json

/-- How many arrays and objects may stand inside one another in what is read. -/
def maxDepth : Nat := 127

/-- An integer of 64 bits. -/
def int64? (n : Decimal.Numeral) : Option Int64 := do
  let i ← n.toInt?
  if Int64.minValue.toInt ≤ i && i ≤ Int64.maxValue.toInt then some (Int64.ofInt i) else none

end Json

namespace Value

mutual

/-- The value as JSON. -/
def toJson : Value → Json
  | .null => .ofString "Null"
  | .bool b => .tagged "Bool" (.bool b)
  | .int i => .tagged "Int" (.ofInt i.toInt)
  | .float f => .tagged "Float" (.ofFloat f)
  | .string s => .tagged "String" (.ofString s)
  | .list items => .tagged "List" (.array (itemsToJson items))
  | .struct fields => .tagged "Struct" (.array (fieldsToJson fields))

/-- The items as JSON, one by one. -/
def itemsToJson : List Value → List Json
  | [] => []
  | v :: vs => toJson v :: itemsToJson vs

/-- The fields as JSON, one by one: an array of the name and the value. -/
def fieldsToJson : List (String × Value) → List Json
  | [] => []
  | (name, v) :: rest => .array [.ofString name, toJson v] :: fieldsToJson rest

end

mutual

/-- The value that is written as JSON, with room for `depth` arrays and objects inside one
another. -/
def ofJson? (depth : Nat) : Json → Option Value
  | .string codes => if Json.text? codes = some "Null" then some .null else none
  | .object [(codes, content)] =>
    match depth, Json.text? codes with
    | depth + 1, some tag => ofContent? depth tag content
    | _, _ => none
  | _ => none

/-- The value of the kind `tag` with the given content. -/
def ofContent? (depth : Nat) (tag : String) : Json → Option Value
  | .null => if tag = "Null" then some .null else none
  | .bool b => if tag = "Bool" then some (.bool b) else none
  | .number n =>
    if tag = "Int" then (Json.int64? n).map .int
    else if tag = "Float" then (Json.float? n).map .float
    else none
  | .string codes => if tag = "String" then (Json.text? codes).map .string else none
  | .array items =>
    match depth with
    | depth + 1 =>
      if tag = "List" then (itemsOfJson? depth items).map .list
      else if tag = "Struct" then (fieldsOfJson? depth items).map .struct
      else none
    | 0 => none
  | .object _ => none

/-- The values of the items. -/
def itemsOfJson? (depth : Nat) : List Json → Option (List Value)
  | [] => some []
  | j :: js => do
    let v ← ofJson? depth j
    let vs ← itemsOfJson? depth js
    some (v :: vs)

/-- The fields that the items write. -/
def fieldsOfJson? (depth : Nat) : List Json → Option (List (String × Value))
  | [] => some []
  | .array [.string codes, j] :: js =>
    match depth with
    | inner + 1 => do
      let name ← Json.text? codes
      let v ← ofJson? inner j
      let rest ← fieldsOfJson? depth js
      some ((name, v) :: rest)
    | 0 => none
  | _ => none

end

end Value

namespace ResultSet

/-- The answer as JSON. -/
def toJson : ResultSet → Json
  | .null => .ofString "Null"
  | .scalar v => .tagged "Scalar" v.toJson
  | .rows items => .tagged "Rows" (.array (Value.itemsToJson items))

/-- The answer that is written as JSON, with room for `depth` arrays and objects inside one
another. -/
def ofJson? (depth : Nat) : Json → Option ResultSet
  | .string codes => if Json.text? codes = some "Null" then some .null else none
  | .object [(codes, content)] => do
    let tag ← Json.text? codes
    match depth, tag, content with
    | _ + 1, "Null", .null => some .null
    | depth + 1, "Scalar", content => (Value.ofJson? depth content).map .scalar
    | depth + 2, "Rows", .array items => (Value.itemsOfJson? depth items).map .rows
    | _, _, _ => none
  | _ => none

end ResultSet

end GridQuery
