import GridQuery.Page.Request
import GridQuery.Statement.Binding
import GridQuery.Statement.Ordering
import GridQuery.Statement.Projection
/-!
# Statements for one page

A page is read either by one statement that is limited to the rows up to the end of the page, or by
two: one for the keys of the page, and one for the rows that have these keys.
-/

namespace GridQuery

/-- A limit of the statement's own that ends inside the page, so that the page is cut short. -/
structure Truncation where
  limit : Nat
  start : Nat
  stop : Nat
deriving DecidableEq, Repr

/-- A statement limited to a page, and whether its own limit cuts the page short. -/
structure Limited where
  statement : Statement
  truncation : Option Truncation := none
deriving DecidableEq, Repr

namespace Statement

/-- The statement limited to the rows up to the end of the page. A limit of its own is only ever
tightened, and it must not end before the page starts.
mirrors `PageLimitingExecutor.limit_for_page` -/
def limitedTo (q : Statement) (page : PageRequest) : Except QueryError Limited :=
  match q.limit? with
  | none => .ok { statement := q.addLimit page.bound }
  | some own =>
    if page.bound < own then .ok { statement := q.setLimit (some page.bound) }
    else if own ≤ page.start then .error (.limitBelowOffset own page.start)
    else if own < page.stop then
      .ok { statement := q, truncation := some ⟨own, page.start, page.stop⟩ }
    else .ok { statement := q }

/-- Whether rows are combined, so that they have no key of their own. mirrors `aggregate_pattern` -/
def isAggregate (q : Statement) : Bool :=
  Phrase.aggregateCall.occursIn q.chars || Phrase.groupBy.occursIn q.chars

/-- The key, and behind it the properties that are not there yet. Distinct rows can only be ordered
by what is projected. -/
def keyProjection (key : String) (properties : List String) : List String :=
  properties.foldl (fun names p => if names.contains p then names else names ++ [p]) [key]

/-- The statement for the keys of the rows, in the order of the rows.
mirrors `TwoPhaseExecutor.key_query` -/
def forKeys (q : Statement) (key : String) : Except QueryError Statement :=
  if q.isAggregate then .error (.declined .aggregate)
  else
    let names := (keyProjection key q.orderedProperties).map String.toList
    match q.project? ("DISTINCT ".toList ++ Text.commaList names) with
    | some keyed => .ok keyed
    | none => .error (.declined .noProjection)

/-- The statement for the rows that have one of these keys.
mirrors `TwoPhaseExecutor.fetch_query` -/
def havingKeys (q : Statement) (key : String) (keys : List Value) : Statement :=
  q.restrict (key.toList ++ " IN SET ".toList ++ typedLiteralList keys)

end Statement

end GridQuery
