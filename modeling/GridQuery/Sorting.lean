/-!
# Sortings

An ordering by properties. The order in which the properties are given is the order in which they
count and in which they are written.
-/

namespace GridQuery

/-- The direction of an order. -/
inductive Direction where
  | ascending
  | descending
deriving DecidableEq, Repr

/-- The keyword of a direction. mirrors `keyword` -/
def Direction.keyword : Direction → String
  | .ascending => "ASC"
  | .descending => "DESC"

/-- An order by one property. -/
structure Order where
  property : String
  direction : Direction
deriving DecidableEq, Repr

/-- Orders, the first one counting most. mirrors `Sort` -/
structure Sorting where
  orders : List Order
deriving DecidableEq, Repr

namespace Sorting

/-- No order at all. mirrors `Sort.unsorted` -/
def unsorted : Sorting := ⟨[]⟩

/-- The sorting with one more order behind the others. mirrors `Sort.and` -/
def and (s : Sorting) (o : Order) : Sorting := ⟨s.orders ++ [o]⟩

/-- Whether nothing is ordered. mirrors `Sort.is_empty` -/
def isEmpty (s : Sorting) : Bool := s.orders.isEmpty

/-- The properties in the order in which they count. mirrors `Sort.properties` -/
def properties (s : Sorting) : List String := s.orders.map (·.property)

/-- The sorting, unless it is empty. -/
def nonempty? (s : Sorting) : Option Sorting := if s.isEmpty then none else some s

end Sorting

end GridQuery
