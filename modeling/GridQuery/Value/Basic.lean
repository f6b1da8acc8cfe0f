/-!
# Values

What travels between a query and the grid: bound arguments, and the rows of a result. A projection
answers with named fields, in projection order; a name may occur more than once.
-/

namespace GridQuery

/-- A value of the grid. -/
inductive Value where
  | null
  | bool (b : Bool)
  | int (i : Int64)
  | float (f : Float)
  | string (s : String)
  | list (items : List Value)
  | struct (fields : List (String × Value))
deriving Inhabited

namespace Value

mutual

/-- Whether two values are equal. Values of different kinds differ, and floats compare as numbers,
so that a value holding a NaN differs from itself. -/
def beq : Value → Value → Bool
  | .null, .null => true
  | .bool a, .bool b => a == b
  | .int a, .int b => a == b
  | .float a, .float b => a == b
  | .string a, .string b => a == b
  | .list as, .list bs => beqItems as bs
  | .struct as, .struct bs => beqFields as bs
  | _, _ => false

/-- Whether two lists of values are equal, item by item. -/
def beqItems : List Value → List Value → Bool
  | [], [] => true
  | a :: as, b :: bs => beq a b && beqItems as bs
  | _, _ => false

/-- Whether two lists of fields are equal, in names, values and order. -/
def beqFields : List (String × Value) → List (String × Value) → Bool
  | [], [] => true
  | (n, a) :: as, (m, b) :: bs => n == m && beq a b && beqFields as bs
  | _, _ => false

end

instance : BEq Value := ⟨beq⟩

/-- Whether the value is null. mirrors `Value.is_null` -/
def isNull : Value → Bool
  | .null => true
  | _ => false

/-- Whether the value is a list. mirrors `Value.is_list` -/
def isList : Value → Bool
  | .list _ => true
  | _ => false

/-- The boolean, if it is one. mirrors `Value.as_bool` -/
def bool? : Value → Option Bool
  | .bool b => some b
  | _ => none

/-- The integer, if it is one. mirrors `Value.as_i64` -/
def int? : Value → Option Int64
  | .int i => some i
  | _ => none

/-- The number as a float; an integer is rounded to the nearest one. mirrors `Value.as_f64` -/
def float? : Value → Option Float
  | .float f => some f
  | .int i => some i.toFloat
  | _ => none

/-- The string, if it is one. mirrors `Value.as_str` -/
def string? : Value → Option String
  | .string s => some s
  | _ => none

/-- The items, if it is a list. mirrors `Value.as_list` -/
def list? : Value → Option (List Value)
  | .list items => some items
  | _ => none

/-- The first field of the given name. mirrors `Value.field` -/
def field? (name : String) : Value → Option Value
  | .struct fields => (fields.find? (·.1 == name)).map (·.2)
  | _ => none

/-- The items of a list; any other value stands for itself. mirrors `Value.into_sequence` -/
def spread : Value → List Value
  | .list items => items
  | v => [v]

end Value

/-! ## Values of other types -/

/-- A type whose elements can be bound as arguments. -/
class ToValue (α : Type) where
  toValue : α → Value

export ToValue (toValue)

instance : ToValue Value := ⟨id⟩
instance : ToValue Bool := ⟨.bool⟩
instance : ToValue Int32 := ⟨fun i => .int i.toInt64⟩
instance : ToValue Int64 := ⟨.int⟩
instance : ToValue Float := ⟨.float⟩
instance : ToValue String := ⟨.string⟩
instance {α : Type} [ToValue α] : ToValue (List α) := ⟨fun xs => .list (xs.map toValue)⟩

instance {α : Type} [ToValue α] : ToValue (Option α) := ⟨fun
  | some x => toValue x
  | none => .null⟩

end GridQuery
