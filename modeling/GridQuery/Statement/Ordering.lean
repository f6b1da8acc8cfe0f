import GridQuery.Sorting
import GridQuery.Statement.Limit
import GridQuery.Text.Comma
/-!
# The ordering of a statement

An ordering is written behind the statement and before its limit. Ordered rows have to be distinct
ones, so an ordering changes the projection as well.
-/

namespace GridQuery

/-- The order as it is written: the property and the keyword of the direction. -/
def Order.text (o : Order) : List Char := o.property.toList ++ ' ' :: o.direction.keyword.toList

/-- The orders as they are written. -/
def Sorting.text (s : Sorting) : List Char := Text.commaList (s.orders.map Order.text)

namespace Statement

/-- The statement ordered by `sorting`. Orders that are there already count first, and a limit stays
at the end. Without an order to add, the statement itself.
mirrors `QueryText.with_order_by` -/
def orderedBy (q : Statement) (sorting : Option Sorting) : Statement :=
  match sorting.bind Sorting.nonempty? with
  | none => q
  | some s =>
    let distinct := q.distinct
    let body := distinct.withoutLimit
    let lead := if Phrase.orderBy.occursIn body.chars then ", " else " ORDER BY "
    let ordered := body.append (lead.toList ++ s.text)
    match distinct.limit? with
    | some n => ordered.addLimit n
    | none => ordered

/-- The text of the ordering: what stands behind the words that open it and before a limit. -/
def orderClause? (q : Statement) : Option (List Char) :=
  (Phrase.orderBy.find? q.chars).map fun m =>
    match Phrase.limit.find? m.after with
    | some l => l.before
    | none => m.after

/-- The properties that the ordering names, in order: the first piece of each item that is not
blank.
mirrors `QueryText.order_by_properties` -/
def orderedProperties (q : Statement) : List String :=
  match q.orderClause? with
  | some clause => ((clause.splitOn ',').filterMap Text.firstPiece?).map String.ofList
  | none => []

end Statement

end GridQuery
