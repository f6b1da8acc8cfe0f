import GridQuery.Json.Basic
/-!
# Records of JSON

A record has fields of known names. It is written as an object, in which other members are passed
over, or as the array of its fields in their order.
-/

namespace GridQuery.Json

/-- The member of the given name: `none` if the name occurs twice, `some none` if it does not
occur. -/
def member? (members : List (String × Json)) (name : String) : Option (Option Json) :=
  match members.filter (·.1 == name) with
  | [] => some none
  | [m] => some (some m.2)
  | _ => none

/-- The members of an object with their names as strings. -/
def namedMembers? (members : List (List Nat × Json)) : Option (List (String × Json)) :=
  members.mapM fun m => (text? m.1).map (·, m.2)

/-- The fields of an object, in the order of the names; a field may be missing. -/
def objectFields? (names : List String) (members : List (List Nat × Json)) :
    Option (List (Option Json)) := do
  let named ← namedMembers? members
  names.mapM (member? named)

/-- The fields of a record, in the order of the names. An array has to have all of them. -/
def fields? (names : List String) : Json → Option (List (Option Json))
  | .object members => objectFields? names members
  | .array items => if items.length = names.length then some (items.map some) else none
  | _ => none

/-- The fields of a record in which every field may be missing, at the end of an array as well. -/
def optionalFields? (names : List String) : Json → Option (List (Option Json))
  | .object members => objectFields? names members
  | .array items =>
    if items.length ≤ names.length then
      some (items.map some ++ List.replicate (names.length - items.length) none)
    else none
  | _ => none

/-- A field that need not be there: a missing one and a null are both `none`. -/
def optional {α : Type} (read : Json → Option α) : Option Json → Option (Option α)
  | none | some .null => some none
  | some j => (read j).map some

end GridQuery.Json
