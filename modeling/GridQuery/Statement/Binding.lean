import GridQuery.Statement.Basic
import GridQuery.Value.Literal
/-!
# Binding lists of values

A placeholder `$k` behind `IN SET` or `IN LIST` stands for the list bound as argument `k`. The list
is written into the text as literals; an empty list binds nothing.
-/

namespace GridQuery

/-- The number of a placeholder, if it is a size. -/
def Hit.placeholderIndex? (h : Hit) : Option Nat := Size.ofDigits? (h.operand.drop 1)

namespace Statement

/-- The numbers of the placeholders, in the order of the text.
mirrors `QueryText.in_parameter_indexes` -/
def placeholders (q : Statement) : List Nat :=
  (Phrase.inPlaceholder.hits q.chars).filterMap Hit.placeholderIndex?

/-- The statement with the values in place of the first placeholder. mirrors `QueryText.bind_in` -/
def bindFirst (q : Statement) (values : List Value) : Statement :=
  if values.isEmpty then q
  else ⟨Phrase.inPlaceholder.replaceFirst (fun h => h.lead ++ literalList values) q.chars⟩

/-- The statement with the values in place of every placeholder of the given number.
mirrors `QueryText.bind_in_at` -/
def bindAt (q : Statement) (index : Nat) (values : List Value) : Statement :=
  if values.isEmpty || !q.placeholders.contains index then q
  else
    ⟨Phrase.inPlaceholder.replaceAll (fun h =>
      if h.placeholderIndex? = some index then h.lead ++ literalList values else h.text) q.chars⟩

end Statement

end GridQuery
