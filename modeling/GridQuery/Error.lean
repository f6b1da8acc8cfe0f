/-!
# Errors

Why a query could not be built, run or shaped, and the wording of each cause. A decline is an error
of its own: it asks the next executor to take over.
-/

namespace GridQuery

/-- Why an executor leaves a query to the next one. -/
inductive Decline where
  | notPaged (method : String)
  | noPageRequest (method : String)
  | aggregate
  | noProjection
  | other (reason : String)
deriving DecidableEq, Repr

/-- The wording of a decline. -/
def Decline.message : Decline → String
  | .notPaged method => "method '" ++ method ++ "' does not return a page"
  | .noPageRequest method => "method '" ++ method ++ "' was invoked without a page request"
  | .aggregate => "aggregate queries are not paged by key"
  | .noProjection => "query projection could not be located"
  | .other reason => reason

/-- Why a page request cannot be served. -/
inductive PageFault where
  | zeroSize
  | other (reason : String)
deriving DecidableEq, Repr

/-- The wording of a page fault. -/
def PageFault.message : PageFault → String
  | .zeroSize => "page size must be greater than zero"
  | .other reason => reason

/-- Why a result does not fit the shape that a method declares. -/
inductive ShapeFault where
  /-- A method of this shape cannot hold this many rows. -/
  | rowCount (shape : String) (rows : Nat)
  /-- The count query answered with something else than a count. -/
  | notACount (answer : String)
  | other (reason : String)
deriving DecidableEq, Repr

/-- The wording of a shape fault. -/
def ShapeFault.message : ShapeFault → String
  | .rowCount shape rows => shape ++ " method cannot return " ++ toString rows ++ " row(s)"
  | .notACount answer => "count query returned " ++ answer
  | .other reason => reason

/-- Why a configuration cannot be used. -/
inductive ConfigFault where
  | malformed
  | zeroThreshold
deriving DecidableEq, Repr

/-- The wording of a configuration fault. -/
def ConfigFault.message : ConfigFault → String
  | .malformed => "malformed JSON"
  | .zeroThreshold => "two_phase_threshold must be positive"

/-- Why a query failed. mirrors `Error` -/
inductive QueryError where
  | emptyQuery
  | declined (why : Decline)
  | ambiguous (expected actual : Nat)
  | unsupportedShape (why : ShapeFault)
  | limitBelowOffset (limit offset : Nat)
  | invalidPage (why : PageFault)
  | missingArgument (index : Nat)
  | config (why : ConfigFault)
  | store (reason : String)
deriving DecidableEq, Repr

namespace QueryError

/-- The wording of an error. -/
def message : QueryError → String
  | .emptyQuery => "query text must not be empty"
  | .declined why => "unsupported query shape: " ++ why.message
  | .ambiguous expected actual =>
    "expected " ++ toString expected ++ " result, got " ++ toString actual
  | .unsupportedShape why => "unsupported return shape: " ++ why.message
  | .limitBelowOffset limit offset =>
    "query LIMIT " ++ toString limit ++ " must be greater than the page start offset " ++
      toString offset
  | .invalidPage why => "invalid page request: " ++ why.message
  | .missingArgument index => "no argument bound for parameter $" ++ toString index
  | .config why => "configuration error: " ++ why.message
  | .store reason => "store error: " ++ reason

/-- Whether the error asks the next executor to take over. mirrors `Error.is_decline` -/
def isDecline : QueryError → Bool
  | .declined _ => true
  | _ => false

end QueryError

end GridQuery
