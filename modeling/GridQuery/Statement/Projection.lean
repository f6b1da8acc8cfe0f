import GridQuery.Statement.Limit
/-!
# Replacing the projection, narrowing the condition

The projection of a statement reaches from its first `SELECT` to the first `FROM` behind that. A
further condition goes before the one that is there, or opens the condition, and always before the
ordering.
-/

namespace GridQuery.Statement

/-- The statement with another projection; `none` if the projection cannot be found.
mirrors `QueryText.with_projection` -/
def project? (q : Statement) (projection : List Char) : Option Statement := do
  let select ← Phrase.select.find? q.chars
  let source ← Phrase.fromWord.findAfter? select.hit.text.getLast? select.after
  some ⟨select.before ++ "SELECT ".toList ++ Text.trim projection ++
    ' ' :: (source.hit.text ++ source.after)⟩

/-- The text up to the ordering, without blanks at its end, and the text from there on. -/
def splitAtOrdering (s : List Char) : List Char × Option (List Char) :=
  match Phrase.orderBy.find? s with
  | some m => (Text.trimEnd m.before, some (m.hit.text ++ m.after))
  | none => (s, none)

/-- A text without ordering, narrowed by `predicate`. The condition that it had goes behind the
predicate, in parentheses. -/
def narrow (predicate s : List Char) : List Char :=
  match Phrase.whereWord.find? s with
  | some m => m.before ++ "WHERE ".toList ++ predicate ++ " AND (".toList ++ Text.trim m.after ++
      [')']
  | none => s ++ " WHERE ".toList ++ predicate

/-- The statement narrowed by `predicate`. Its limits are left out.
mirrors `QueryText.with_restriction` -/
def restrict (q : Statement) (predicate : List Char) : Statement :=
  let (head, tail) := splitAtOrdering q.withoutLimit.chars
  ⟨narrow predicate head ++ match tail with
    | some ordering => ' ' :: ordering
    | none => []⟩

end GridQuery.Statement
