import GridQuery.Value.Basic
/-!
# Result sets

What the grid answers: nothing, a bare value, or rows. Every answer can be read as rows.
-/

namespace GridQuery

/-- The answer to a query. -/
inductive ResultSet where
  | null
  | scalar (v : Value)
  | rows (items : List Value)
deriving Inhabited

namespace ResultSet

/-- The answer as rows: nothing is no row, a list is its items, any other value is one row.
mirrors `ResultSet.into_rows` -/
def toRows : ResultSet → List Value
  | .null => []
  | .scalar v => v.spread
  | .rows items => items

/-- The number of rows. mirrors `ResultSet.len` -/
def size (r : ResultSet) : Nat := r.toRows.length

/-- Whether there are no rows. mirrors `ResultSet.is_empty` -/
def isEmpty (r : ResultSet) : Bool := r.size == 0

/-- The rows from offset `start` up to, but not with, offset `stop`, as far as they exist.
mirrors `slice` -/
def slice (r : ResultSet) (start stop : Nat) : ResultSet := .rows ((r.toRows.take stop).drop start)

@[simp] theorem toRows_slice (r : ResultSet) (start stop : Nat) :
    (r.slice start stop).toRows = (r.toRows.take stop).drop start := rfl

end ResultSet

end GridQuery
