import GridQuery.Config
import GridQuery.Executor.Keyed
/-!
# The standard chain of executors

Invocations for a page are routed by how deep the page lies: early pages are read directly, deep
ones by their keys. What is not asked for page by page goes to the store as it is.
-/

namespace GridQuery

/-- How a page is read. mirrors `ExecutionPath` -/
inductive Route where
  /-- By one statement, limited to the end of the page. -/
  | direct
  /-- By its keys first. -/
  | twoPhase
deriving DecidableEq, Repr

/-- The route of a page: the first page, and all pages that end before the threshold, are read
directly.
mirrors `SmartExecutor.select_path` -/
def PageRequest.route (page : PageRequest) (threshold : Nat) : Route :=
  if page.isFirst || page.bound < threshold then .direct else .twoPhase

namespace Executor

variable {σ : Type}

/-- Routes an invocation by the depth of its page. Where pages cannot be read by their keys, all of
them are read directly.
mirrors `SmartExecutor` -/
def routed (threshold : Nat) (direct : Executor σ) (twoPhase : Option (Executor σ)) :
    Executor σ := fun i q => do
  let page ← i.page
  match page.route threshold, twoPhase with
  | .twoPhase, some deep => deep i q
  | _, _ => direct i q

/-- Reads a page with one statement. -/
def direct (store : Store σ) : Executor σ := limited (sliced store)

/-- Reads a page by its keys, or with one statement where there are none. -/
def byKeys (store : Store σ) : Executor σ :=
  orElse (keyed (direct store) (plain store)) (direct store)

/-- The chain that a repository uses unless it is given another one.
mirrors `ExecutorChain.standard` -/
def standard (store : Store σ) (config : Config) : Executor σ :=
  orElse
    (routed config.twoPhaseThreshold (direct store)
      (if config.twoPhaseEnabled then some (byKeys store) else none))
    (plain store)

end Executor

end GridQuery
