import GridQuery.Error
/-!
# Configuration of paged execution
-/

namespace GridQuery

/-- How pages are executed. mirrors `ExecutorConfig` -/
structure Config where
  /-- The number of covered rows from which on a page is read by its keys first. -/
  twoPhaseThreshold : Nat := 101
  /-- Whether pages may be read by their keys first at all. -/
  twoPhaseEnabled : Bool := true
deriving DecidableEq, Repr

/-- Whether the configuration can be used: a threshold of zero cannot.
mirrors `ExecutorConfig.validate` -/
def Config.check (c : Config) : Except QueryError Unit :=
  if c.twoPhaseThreshold = 0 then .error (.config .zeroThreshold) else .ok ()

end GridQuery
