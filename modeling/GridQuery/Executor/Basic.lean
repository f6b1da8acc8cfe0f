import GridQuery.Method.Arguments
import GridQuery.Session
/-!
# Executors

An executor runs a statement for an invocation. It may decline; the executor behind it then takes
the same statement. Any other error ends the run.
-/

namespace GridQuery

/-- Runs a statement for an invocation. mirrors `OqlQueryExecutor.execute` -/
abbrev Executor (σ : Type) : Type := Invocation → Statement → Run σ ResultSet

namespace Executor

variable {σ : Type}

/-- Hands the statement to the store as it is. mirrors `StoreQueryExecutor` -/
def plain (store : Store σ) : Executor σ := fun i q => store.ask q i.args.values

/-- Hands the statement to the store and keeps the rows of the page.
mirrors `SimplePagedExecutor` -/
def sliced (store : Store σ) : Executor σ := fun i q => do
  let page ← i.page
  let result ← store.ask q i.args.values
  pure (result.slice page.start page.stop)

/-- Limits the statement to the page before the inner executor runs it.
mirrors `PageLimitingExecutor` -/
def limited (inner : Executor σ) : Executor σ := fun i q => do
  let page ← i.page
  let limited ← q.limitedTo page
  match limited.truncation with
  | some t => Run.record (.truncated t)
  | none => pure ()
  inner i limited.statement

/-- Lets the next executor run what the first one declines. mirrors `FallbackExecutor` -/
def orElse (primary next : Executor σ) : Executor σ := fun i q =>
  tryCatch (primary i q) fun e => if e.isDecline then next i q else throw e

/-- A stand-in that records what it is handed and always answers the same. -/
def fixed (name : String) (answer : Except QueryError ResultSet) : Executor σ := fun _ q => do
  Run.record (.handed name q)
  answer

end Executor

end GridQuery
