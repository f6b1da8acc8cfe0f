import GridQuery.Criteria.Basic
import GridQuery.Method.Basic
import GridQuery.Statement.Limit
/-!
# The statement of a derived query

Predicates are written as conditions over positional parameters. The parameters are numbered from 1
in the order of the predicates that take one.
-/

namespace GridQuery

namespace Predicate

/-- The property and what stands behind it. -/
def compare (p : Predicate) (rest : List Char) : List Char := p.property.toList ++ ' ' :: rest

/-- The property compared by `operator` with the parameter of number `k`. -/
def compareWith (p : Predicate) (operator : String) (k : Nat) : List Char :=
  p.compare (operator.toList ++ ' ' :: '$' :: Decimal.ofNat k)

/-- The condition in parentheses behind `NOT`, if the predicate is negated. -/
def negating (p : Predicate) (condition : List Char) : List Char :=
  if p.negated then "NOT (".toList ++ condition ++ [')'] else condition

/-- The predicate as a condition, where `k` is the number of the next parameter. Where the language
has an operator for the opposite, a negated predicate uses it.
mirrors `QueryCreator.render` -/
def text (p : Predicate) (k : Nat) : List Char :=
  match p.comparison with
  | .equals => p.compareWith (if p.negated then "!=" else "=") k
  | .isNull => p.compare (if p.negated then "!= NULL" else "= NULL").toList
  | .isNotNull => p.compare (if p.negated then "= NULL" else "!= NULL").toList
  | .isTrue => p.compare (if p.negated then "= false" else "= true").toList
  | .isFalse => p.compare (if p.negated then "= true" else "= false").toList
  | .greater => p.negating (p.compareWith ">" k)
  | .greaterOrEqual => p.negating (p.compareWith ">=" k)
  | .less => p.negating (p.compareWith "<" k)
  | .lessOrEqual => p.negating (p.compareWith "<=" k)
  | .like => p.negating (p.compareWith "LIKE" k)
  | .isIn => p.negating (p.compareWith "IN SET" k)

end Predicate

namespace Criteria

/-- The conditions of predicates whose parameters are numbered from `k` on, one by one. -/
def conditions (k : Nat) : List Predicate → List (List Char)
  | [] => []
  | p :: ps => p.text k :: conditions (k + p.comparison.arity) ps

/-- The predicates of one alternative, joined. -/
def groupText (k : Nat) (group : List Predicate) : List Char :=
  List.intercalate " AND ".toList (conditions k group)

/-- The alternatives that have a predicate, one by one, with parameters numbered from `k` on. -/
def groupTexts (k : Nat) : List (List Predicate) → List (List Char)
  | [] => []
  | group :: groups =>
    if group.isEmpty then groupTexts k groups
    else groupText k group :: groupTexts (k + Predicate.arguments group) groups

/-- The statement without condition and limit. Counted rows need not be distinct. -/
def projection (c : Criteria) (entity : Entity) : Except QueryError Statement :=
  if c.count then Statement.countingRegion entity.region
  else if c.distinct then (Statement.ofRegion entity.region).map Statement.distinct
  else Statement.ofRegion entity.region

/-- The statement with the condition of the criteria. -/
def conditioned (c : Criteria) (base : Statement) : Except QueryError Statement :=
  match groupTexts 1 c.groups with
  | [] => .ok base
  | groups =>
    let condition := List.intercalate " OR ".toList groups
    Statement.ofString (String.ofList (base.chars ++ " WHERE ".toList ++ condition))

/-- The statement that asks an entity for the rows. The ordering is left to the caller, who may know
another one; a count has no limit.
mirrors `QueryCreator.create` -/
def statement (c : Criteria) (entity : Entity) : Except QueryError Statement := do
  let query ← c.conditioned (← c.projection entity)
  match c.maxResults with
  | some n => pure (if c.count then query else query.addLimit n)
  | none => pure query

end Criteria

end GridQuery
