import GridQuery.Error
import GridQuery.Method.Basic
import GridQuery.Page.Basic
import GridQuery.ResultSet
/-!
# Shapes of results

The rows of an answer in the shape that a method declares. A shape that cannot hold them is an
error; no row is dropped to make them fit.
-/

namespace GridQuery

/-- A result in the shape that the caller asked for. mirrors `Shaped` -/
inductive MethodResult where
  | absent
  | single (v : Value)
  | collection (rows : List Value)
  | page (p : Page)

namespace MethodResult

/-- The value, if the result is a single one. mirrors `Shaped.as_single` -/
def single? : MethodResult → Option Value
  | .single v => some v
  | _ => none

/-- The page, if the result is one. mirrors `Shaped.as_page` -/
def page? : MethodResult → Option Page
  | .page p => some p
  | _ => none

/-- The rows of the result, in order. mirrors `Shaped.into_rows` -/
def rows : MethodResult → List Value
  | .absent => []
  | .single v => [v]
  | .collection rs => rs
  | .page p => p.content

end MethodResult

/-- The answer in the given shape. A page without a request of its own is the first one, as large
as the answer.
mirrors `shape` -/
def ResultSet.shaped (r : ResultSet) (shape : ResultShape) (request : Option PageRequest) :
    Except QueryError MethodResult :=
  let rows := r.toRows
  match shape, rows with
  | .collection, _ => .ok (.collection rows)
  | .page, _ =>
    .ok (.page { content := rows, request := request.getD (.first (max rows.length 1)) })
  | .single, [] => .ok .absent
  | .single, [v] => .ok (.single v)
  | .single, _ => .error (.ambiguous 1 rows.length)
  | .scalar, [v] => .ok (.single v)
  | .scalar, _ => .error (.unsupportedShape (.rowCount ResultShape.scalar.name rows.length))
  | .void, _ => .error (.unsupportedShape (.rowCount ResultShape.void.name rows.length))

end GridQuery
