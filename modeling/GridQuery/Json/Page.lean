import GridQuery.Json.Record
import GridQuery.Json.Value
import GridQuery.Page.Basic
/-!
# Sortings and pages as JSON

Each of them is a record, and an enumeration is the name of its case.
-/

namespace GridQuery

namespace Json

/-- A size. -/
def size? : Json → Option Nat
  | .number n => do
    let i ← n.toInt?
    if 0 ≤ i && i ≤ Size.max then some i.toNat else none
  | _ => none

/-- A size as JSON. -/
def ofSize (n : Nat) : Json := .ofInt n

/-- A string. -/
def string? : Json → Option String
  | .string codes => text? codes
  | _ => none

/-- The name of a case that has no content: alone, or as the name of a null. -/
def caseName? (depth : Nat) : Json → Option String
  | .string codes => text? codes
  | .object [(codes, .null)] => if 0 < depth then text? codes else none
  | _ => none

/-- The items of an array, each one read with room for one level less. -/
def listOf? {α : Type} (read : Nat → Json → Option α) (depth : Nat) : Json → Option (List α)
  | .array items =>
    match depth with
    | depth + 1 => items.mapM (read depth)
    | 0 => none
  | _ => none

/-- A value, or null for none. -/
def ofOption {α : Type} (write : α → Json) : Option α → Json
  | some x => write x
  | none => .null

end Json

open Json (record ofString ofOption listOf?)

namespace Direction

/-- The name of the case. -/
def caseName : Direction → String
  | .ascending => "Asc"
  | .descending => "Desc"

/-- The direction of the given name. -/
def ofCaseName? : String → Option Direction
  | "Asc" => some .ascending
  | "Desc" => some .descending
  | _ => none

end Direction

/-- The order as JSON. -/
def Order.toJson (o : Order) : Json :=
  record [("property", ofString o.property), ("direction", ofString o.direction.caseName)]

/-- The order that is written as JSON. -/
def Order.ofJson? : (depth : Nat) → Json → Option Order
  | depth + 1, j => do
    match ← j.fields? ["property", "direction"] with
    | [some property, some direction] =>
      let property ← property.string?
      let direction ← (direction.caseName? depth).bind Direction.ofCaseName?
      some { property, direction }
    | _ => none
  | 0, _ => none

/-- The sorting as JSON. -/
def Sorting.toJson (s : Sorting) : Json := record [("orders", .array (s.orders.map Order.toJson))]

/-- The sorting that is written as JSON. -/
def Sorting.ofJson? : (depth : Nat) → Json → Option Sorting
  | depth + 1, j => do
    match ← j.fields? ["orders"] with
    | [some orders] => (listOf? Order.ofJson? depth orders).map Sorting.mk
    | _ => none
  | 0, _ => none

/-- The page request as JSON. -/
def PageRequest.toJson (p : PageRequest) : Json :=
  record [("page_number", .ofSize p.number), ("page_size", .ofSize p.size),
    ("sort", ofOption Sorting.toJson p.sorting)]

/-- The page request that is written as JSON. -/
def PageRequest.ofJson? : (depth : Nat) → Json → Option PageRequest
  | depth + 1, j => do
    match ← j.fields? ["page_number", "page_size", "sort"] with
    | [some number, some size, sorting] =>
      let number ← number.size?
      let size ← size.size?
      let sorting ← Json.optional (Sorting.ofJson? depth) sorting
      some { number, size, sorting }
    | _ => none
  | 0, _ => none

/-- The page as JSON. -/
def Page.toJson (p : Page) : Json :=
  record [("content", .array (Value.itemsToJson p.content)), ("request", p.request.toJson),
    ("total", ofOption Json.ofSize p.total)]

/-- The page that is written as JSON. -/
def Page.ofJson? : (depth : Nat) → Json → Option Page
  | depth + 1, j => do
    match ← j.fields? ["content", "request", "total"] with
    | [some content, some request, total] =>
      let content ← listOf? Value.ofJson? depth content
      let request ← PageRequest.ofJson? depth request
      let total ← Json.optional Json.size? total
      some { content, request, total }
    | _ => none
  | 0, _ => none

end GridQuery
