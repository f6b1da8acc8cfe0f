import GridQuery.Criteria.Statement
import GridQuery.Directive
import GridQuery.Executor.Standard
import GridQuery.Shape
/-!
# Query methods of a repository

A query method builds the statement for its arguments, has it executed and shapes the answer. For a
page it also asks how many rows there are on all pages, if the method says how to count them.
-/

namespace GridQuery

namespace Statement

/-- The statement with the arguments of these numbers bound, one number after the other. -/
def bindEach (q : Statement) (args : Arguments) : (indexes : List Nat) → Except QueryError Statement
  | [] => .ok q
  | index :: rest =>
    match args.parameter? index with
    | none => .error (.missingArgument index)
    | some v => (q.bindAt index v.spread).bindEach args rest

/-- The numbers of the placeholders in increasing order, each one once. -/
def parameters (q : Statement) : List Nat := (q.placeholders.mergeSort fun a b => a ≤ b).eraseDups

/-- The statement with the arguments bound to all placeholders, the lowest number first.
mirrors `RepositoryQuery.bind_in_parameters` -/
def bindArguments (q : Statement) (args : Arguments) : Except QueryError Statement :=
  q.bindEach args q.parameters

end Statement

/-- A query method ready to be called: the criteria of a derived query, the store, and how the query
is executed and decorated.
mirrors `RepositoryQuery` -/
structure Repository (σ : Type) where
  method : Method
  criteria : Option Criteria := none
  store : Store σ
  executor : Executor σ
  directives : List Directive := Directive.standard

namespace Repository

variable {σ : Type}

/-- A query method that is executed by the standard chain. mirrors `RepositoryQuery.new` -/
def standard (method : Method) (store : Store σ) (config : Config) : Repository σ :=
  { method, store, executor := Executor.standard store config }

/-- A query text of the method, with the region of the entity in place of the one it names.
mirrors `RepositoryQuery.annotated` -/
def annotated (r : Repository σ) (text : String) : Except QueryError Statement := do
  let query ← Statement.ofString text
  match r.method.entity.regionPath with
  | some path => pure (query.inRegion path)
  | none => pure query

/-- The statement before anything is bound: the query text of the method, or the one that its
criteria give.
mirrors `RepositoryQuery.base_query` -/
def baseStatement (r : Repository σ) : Except QueryError Statement :=
  match r.method.annotation? with
  | some text => r.annotated text
  | none => (r.criteria.getD {}).statement r.method.entity

/-- The ordering for the arguments: theirs, or else the one of the criteria. -/
def sorting? (r : Repository σ) (args : Arguments) : Option Sorting :=
  args.sorting?.or (r.criteria.bind (·.sorting))

/-- The statement that is executed for the arguments, where `decorate` is what is done to it last. -/
def statementWith (r : Repository σ) (decorate : Statement → Statement) (args : Arguments) :
    Except QueryError Statement := do
  let query ← (← r.baseStatement).bindArguments args
  pure (decorate (query.orderedBy (r.sorting? args)))

/-- The statement that is executed for the arguments, decorated as the method says.
mirrors `RepositoryQuery.query_text` -/
def statement (r : Repository σ) (args : Arguments) : Except QueryError Statement :=
  r.statementWith (Directive.applyAll r.method · r.directives) args

/-- The number of rows that a count query answered: its value, or the first row. -/
def countOf (answer : ResultSet) : Except QueryError Nat :=
  let value := match answer with
    | .scalar v => v
    | other => other.toRows.head?.getD .null
  match value with
  | .int n => if 0 ≤ n.toInt then .ok n.toInt.toNat else notACount value
  | _ => notACount value
where
  /-- The error for a value that does not count anything. -/
  notACount (v : Value) : Except QueryError Nat :=
    .error (.unsupportedShape (.notACount (String.ofList v.shown)))

/-- The number of rows on all pages, if the method says how to count them.
mirrors `RepositoryQuery.count` -/
def total (r : Repository σ) (args : Arguments) : Run σ (Option Nat) :=
  match r.method.count? with
  | none => pure none
  | some text => do
    let query ← (← r.annotated text).bindArguments args
    let answer ← r.store.ask query args.values
    let n ← countOf answer
    pure (some n)

/-- Runs the method for the arguments, where `decorate` is what is done to its statement last. -/
def runWith (r : Repository σ) (decorate : Statement → Statement) (args : Arguments) :
    Run σ MethodResult := do
  let query ← r.statementWith decorate args
  let answer ← r.executor { method := r.method, args } query
  let shaped ← answer.shaped r.method.shape args.page
  match shaped with
  | .page page => do
    let total ← r.total args
    pure (.page { page with total })
  | other => pure other

/-- Runs the method for the arguments. mirrors `RepositoryQuery.execute` -/
def run (r : Repository σ) (args : Arguments) : Run σ MethodResult :=
  r.runWith (Directive.applyAll r.method · r.directives) args

end Repository

end GridQuery
