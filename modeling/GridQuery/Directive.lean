import GridQuery.Method.Basic
import GridQuery.Statement.Limit
import GridQuery.Statement.Marker
/-!
# Directives

A method may declare a limit, an import, index hints and a trace. Each directive is added to the
statement where the method declares it and the statement does not carry one of its kind yet.
-/

namespace GridQuery

/-- The kinds of directives. mirrors `QueryPostProcessor` -/
inductive Directive where
  | limit
  | importing
  | hint
  | trace
deriving DecidableEq, Repr

namespace Directive

/-- The name of a directive. mirrors `QueryPostProcessor.name` -/
def name : Directive → String
  | .limit => "limit"
  | .importing => "import"
  | .hint => "hint"
  | .trace => "trace"

/-- The statement with the directive of the method. mirrors `QueryPostProcessor.post_process` -/
def apply (m : Method) (q : Statement) : Directive → Statement
  | .limit => match m.limit with
    | some n => if q.hasLimit then q else q.addLimit n
    | none => q
  | .importing => match m.import? with
    | some text => q.addImport text
    | none => q
  | .hint => if m.hasHints then q.addHints m.hints else q
  | .trace => if m.trace then q.addTrace else q

/-- The directives in the order in which they are applied. The ones written before the statement
follow the limit, the last of them standing first.
mirrors `standard_post_processors` -/
def standard : List Directive := [.limit, .importing, .hint, .trace]

/-- The statement with several directives of the method, applied in the given order.
mirrors `apply_all` -/
def applyAll (m : Method) (q : Statement) (directives : List Directive) : Statement :=
  directives.foldl (fun q d => d.apply m q) q

/-- The directives with the statement as it is after each of them. -/
def steps (m : Method) (q : Statement) : List Directive → List (Directive × Statement)
  | [] => []
  | d :: ds => (d, d.apply m q) :: steps m (d.apply m q) ds

end Directive

end GridQuery
