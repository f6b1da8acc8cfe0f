import GridQuery.Error
import GridQuery.Phrase.Clauses
import GridQuery.Size
/-!
# Statements

A statement is the text of a query. It is read and edited by the phrases that stand in it; there is
no syntax tree behind it, and an edit that finds nothing to do leaves the text as it is.
-/

namespace GridQuery

/-- The text of a query. mirrors `QueryText` -/
structure Statement where
  chars : List Char
deriving DecidableEq, Repr

namespace Statement

/-- The text as a string. mirrors `QueryText.as_str` -/
def toString (q : Statement) : String := String.ofList q.chars

/-- The statement with the given text, without blanks at its ends; a blank text is none.
mirrors `QueryText.new` -/
def ofString (text : String) : Except QueryError Statement :=
  let chars := Text.trim text.toList
  if chars = [] then .error .emptyQuery else .ok ⟨chars⟩

/-- The name of a region without blanks around it and slashes before it. -/
def regionName (target : String) : List Char :=
  (Text.trim target.toList).dropWhile (· == '/')

/-- A projection of the whole region. mirrors `QueryText.from_template` -/
def projecting (projection target : String) : Except QueryError Statement :=
  let name := regionName target
  if name = [] then .error .emptyQuery
  else .ok ⟨"SELECT ".toList ++ projection.toList ++ " FROM /".toList ++ name⟩

/-- All rows of a region. mirrors `QueryText.for_target` -/
def ofRegion (target : String) : Except QueryError Statement := projecting "*" target

/-- The number of rows of a region. mirrors `QueryText.count_for_target` -/
def countingRegion (target : String) : Except QueryError Statement := projecting "count(*)" target

/-- The statement with `text` behind it. -/
def append (q : Statement) (text : List Char) : Statement := ⟨q.chars ++ text⟩

/-- The statement with `text` before it. -/
def prepend (text : List Char) (q : Statement) : Statement := ⟨text ++ q.chars⟩

/-- Whether the projection asks for distinct rows. mirrors `QueryText.is_distinct` -/
def asksDistinct (q : Statement) : Bool := Phrase.selectDistinct.occursIn q.chars

/-- The statement asking for distinct rows. mirrors `QueryText.with_distinct` -/
def distinct (q : Statement) : Statement :=
  if q.asksDistinct then q
  else ⟨Phrase.select.replaceFirst (fun _ => "SELECT DISTINCT".toList) q.chars⟩

/-- The statement with `path` in place of every region path; a path without a name changes
nothing.
mirrors `QueryText.rewrite_target` -/
def inRegion (q : Statement) (path : String) : Statement :=
  let path := Text.trim path.toList
  if path.dropWhile (· == '/') = [] then q
  else
    let target := if path.head? = some '/' then path else '/' :: path
    ⟨Phrase.regionPath.replaceAll (fun _ => target) q.chars⟩

end Statement

end GridQuery
