import GridQuery.Size
import GridQuery.Sorting
/-!
# Page requests

A page is named by its number, counted from zero, and its size. The rows it covers lie between two
offsets, which saturate at the largest size.
-/

namespace GridQuery

/-- A request for one page. A size of zero can be written down but not served. -/
structure PageRequest where
  number : Nat
  size : Nat
  sorting : Option Sorting := none
deriving DecidableEq, Repr

namespace PageRequest

/-- The first page of the given size. mirrors `first` -/
def first (size : Nat) : PageRequest := { number := 0, size }

/-- The page behind this one. mirrors `next`, except at the largest page number: there the addition
of `next` overflows, while here the number grows beyond the largest size. -/
def next (p : PageRequest) : PageRequest := { p with number := p.number + 1 }

/-- Whether this is the first page. mirrors `is_first_page` -/
def isFirst (p : PageRequest) : Bool := p.number == 0

/-- The offset of the first row on the page. mirrors `start_offset` -/
def start (p : PageRequest) : Nat := Size.mul p.number p.size

/-- The offset behind the last row on the page. mirrors `end_offset` -/
def stop (p : PageRequest) : Nat := Size.add p.start p.size

/-- The number of rows that have to be read, from the first row on, to cover the page.
mirrors `result_bound_for_page` -/
def bound (p : PageRequest) : Nat := Size.mul (Size.add p.number 1) p.size

/-- The ordering of the page, unless it orders nothing. mirrors `PageRequest.sort` -/
def sorting? (p : PageRequest) : Option Sorting := p.sorting.bind Sorting.nonempty?

end PageRequest

end GridQuery
