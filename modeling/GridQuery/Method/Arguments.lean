import GridQuery.Error
import GridQuery.Method.Basic
import GridQuery.Page.Request
import GridQuery.Value.Basic
/-!
# Arguments of an invocation

The values are bound to the parameters by position. A page request and an ordering travel beside
them and are never bound.
-/

namespace GridQuery

/-- The arguments of one invocation. -/
structure Arguments where
  values : List Value := []
  page : Option PageRequest := none
  sorting : Option Sorting := none

namespace Arguments

/-- The value bound to parameter `index`; the first parameter has index 1.
mirrors `Arguments.parameter` -/
def parameter? (a : Arguments) : (index : Nat) → Option Value
  | 0 => none
  | i + 1 => a.values[i]?

/-- The ordering of the invocation: an ordering of its own counts before the one of the page.
mirrors `Arguments.sort` -/
def sorting? (a : Arguments) : Option Sorting :=
  (a.sorting.bind Sorting.nonempty?).or (a.page.bind PageRequest.sorting?)

end Arguments

/-- A method together with the arguments it is called with. -/
structure Invocation where
  method : Method
  args : Arguments

/-- The page that the invocation asks for. An invocation that asks for none is declined, so that
another executor can take it.
mirrors `page_request` -/
def Invocation.page (i : Invocation) : Except QueryError PageRequest :=
  if !i.method.isPaged then .error (.declined (.notPaged i.method.name))
  else
    match i.args.page with
    | none => .error (.declined (.noPageRequest i.method.name))
    | some page => if page.size = 0 then .error (.invalidPage .zeroSize) else .ok page

end GridQuery
