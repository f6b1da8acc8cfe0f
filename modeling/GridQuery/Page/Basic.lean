import GridQuery.Page.Request
import GridQuery.Value.Basic
/-!
# Pages

Rows together with the request that they answer and, where it is known, the number of rows on all
pages.
-/

namespace GridQuery

/-- One page of rows. -/
structure Page where
  content : List Value
  request : PageRequest
  /-- The number of rows on all pages, when known. -/
  total : Option Nat := none

namespace Page

/-- The number of rows on the page. mirrors `Page.len` -/
def size (p : Page) : Nat := p.content.length

/-- Whether the page holds no rows. mirrors `Page.is_empty` -/
def isEmpty (p : Page) : Bool := p.content.isEmpty

/-- The number of pages that the total fills, the last one perhaps in part. A page size of zero
counts as one.
mirrors `Page.total_pages` -/
def totalPages? (p : Page) : Option Nat :=
  let size := max p.request.size 1
  p.total.map fun total => (total + (size - 1)) / size

/-- Whether a further page may follow. Where the total is unknown, a full page is taken to have a
successor.
mirrors `Page.has_next` -/
def hasNext (p : Page) : Bool :=
  match p.total with
  | some total => p.request.bound < total
  | none => p.content.length == p.request.size

end Page

end GridQuery
