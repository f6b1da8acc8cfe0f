import GridQuery.Statement.Basic
import GridQuery.Text.Comma
/-!
# Markers before a statement

A statement may be preceded by an import, by index hints and by the request for a trace. A marker is
added only where none of its kind stands in the text yet.
-/

namespace GridQuery

/-- The name of an index: the text without blanks and then without single quotes at its ends. -/
def hintName (hint : String) : List Char :=
  Text.stripWhile (· == '\'') (Text.trim hint.toList)

/-- The clause of an import: the text without blanks and semicolons around it, and without the
keyword itself before it. -/
def importClause (text : String) : List Char :=
  let clause := Text.trim (Text.dropEndWhile (· == ';') (Text.trim text.toList))
  let rest := clause.drop 6
  if (clause.take 6).map Char.toUpper = "IMPORT".toList && rest.head?.all Text.isBlank
  then Text.trim rest
  else clause

namespace Statement

/-- The statement with index hints, leaving out the ones without a name.
mirrors `QueryText.with_hints` -/
def addHints (q : Statement) (hints : List String) : Statement :=
  let names := (hints.map hintName).filter (· ≠ [])
  if names.isEmpty || Phrase.hintMarker.occursIn q.chars then q
  else
    let quoted := names.map fun name => '\'' :: name ++ ['\'']
    q.prepend ("<HINT ".toList ++ Text.commaList quoted ++ "> ".toList)

/-- The statement with an import. mirrors `QueryText.with_import` -/
def addImport (q : Statement) (text : String) : Statement :=
  let clause := importClause text
  if clause.isEmpty || Phrase.importMarker.occursIn q.chars then q
  else q.prepend ("IMPORT ".toList ++ clause ++ "; ".toList)

/-- The statement with the request for a trace. mirrors `QueryText.with_trace` -/
def addTrace (q : Statement) : Statement :=
  if Phrase.traceMarker.occursIn q.chars then q else q.prepend "<TRACE> ".toList

end Statement

end GridQuery
