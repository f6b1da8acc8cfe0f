import GridQuery.Sorting
/-!
# Criteria of a derived query

A method without a query text of its own says by its name which rows it wants: alternatives, each of
them a row of predicates that hold together, and how many rows, in which order.
-/

namespace GridQuery

/-- How a predicate compares its property. mirrors `PartKind` -/
inductive Comparison where
  | equals
  | greater
  | greaterOrEqual
  | less
  | lessOrEqual
  | like
  | isIn
  | isNull
  | isNotNull
  | isTrue
  | isFalse
deriving DecidableEq, Repr

/-- The number of arguments that a comparison takes. mirrors `PartKind.arity` -/
def Comparison.arity : Comparison → Nat
  | .isNull | .isNotNull | .isTrue | .isFalse => 0
  | _ => 1

/-- A predicate on one property. mirrors `Part` -/
structure Predicate where
  property : String
  comparison : Comparison
  negated : Bool := false
deriving DecidableEq, Repr

/-- The number of arguments that predicates take together. -/
def Predicate.arguments : List Predicate → Nat
  | [] => 0
  | p :: ps => p.comparison.arity + arguments ps

/-- The opposite predicate. mirrors `Part.negate` -/
def Predicate.negate (p : Predicate) : Predicate := { p with negated := !p.negated }

/-- Which rows a derived query asks for. mirrors `PartTree` -/
structure Criteria where
  /-- The alternatives; the predicates of one alternative hold together. -/
  groups : List (List Predicate) := []
  sorting : Option Sorting := none
  distinct : Bool := false
  /-- Whether the rows are only counted. -/
  count : Bool := false
  maxResults : Option Nat := none
deriving DecidableEq, Repr

namespace Criteria

/-- All predicates, in the order in which they are written. mirrors `PartTree.parts` -/
def predicates (c : Criteria) : List Predicate := c.groups.flatten

/-- The number of arguments that the predicates take. mirrors `PartTree.parameter_count` -/
def argumentCount (c : Criteria) : Nat := Predicate.arguments c.predicates

end Criteria

end GridQuery
