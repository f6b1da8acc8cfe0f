import GridQuery.Statement.Basic
/-!
# Limits of a statement

A statement may bound the number of its rows. The first limit counts; a limit that is too large for
a size, or that is not written in ASCII digits, counts as the largest size.
-/

namespace GridQuery.Statement

/-- The limit, if there is one. mirrors `QueryText.limit` -/
def limit? (q : Statement) : Option Nat :=
  (Phrase.limit.find? q.chars).map fun m => (Size.ofDigits? m.hit.operand).getD Size.max

/-- Whether there is a limit. mirrors `QueryText.is_limited` -/
def hasLimit (q : Statement) : Bool := Phrase.limit.occursIn q.chars

/-- The limit, or the largest size. mirrors `QueryText.limit_value` -/
def limitOrMax (q : Statement) : Nat := q.limit?.getD Size.max

/-- The statement with a limit behind it. It is for the caller to know that there is none yet.
mirrors `QueryText.with_limit` -/
def addLimit (q : Statement) (n : Nat) : Statement :=
  q.append (" LIMIT ".toList ++ Decimal.ofNat n)

/-- The statement without its limits, and then without blanks at its ends.
mirrors `QueryText.strip_limit` -/
def withoutLimit (q : Statement) : Statement :=
  if q.hasLimit then ⟨Text.trim (Phrase.limit.replaceAll (fun _ => []) q.chars)⟩ else q

/-- The statement with one limit in place of all others; without a new limit, the statement
itself.
mirrors `QueryText.adjust_limit` -/
def setLimit (q : Statement) : Option Nat → Statement
  | some n => q.withoutLimit.addLimit n
  | none => q

theorem hasLimit_eq (q : Statement) : q.hasLimit = q.limit?.isSome := by
  simp [hasLimit, limit?, Phrase.occursIn]

end GridQuery.Statement
