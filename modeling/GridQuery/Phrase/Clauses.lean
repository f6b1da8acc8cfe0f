import GridQuery.Phrase.Basic
/-!
# The phrases of the query language

The keywords, clauses and markers that are looked for in a query text. Blanks separate the words of
a phrase, keywords count in either case, and a keyword does not stand inside a longer word.
-/

namespace GridQuery.Phrase

/-- The word that opens a projection. mirrors `select_pattern` -/
def select : Phrase := { lead := [.edge, .word "SELECT", .edge] }

/-- A projection that already asks for distinct rows. mirrors `distinct_pattern` -/
def selectDistinct : Phrase :=
  { lead := [.edge, .word "SELECT", .blanks, .word "DISTINCT", .edge] }

/-- The word that ends a projection and names the region. mirrors `from_pattern` -/
def fromWord : Phrase := { lead := [.edge, .word "FROM", .edge] }

/-- The word that opens the condition. mirrors `where_pattern` -/
def whereWord : Phrase := { lead := [.edge, .word "WHERE", .edge] }

/-- The words that open the ordering. mirrors `order_by_pattern` -/
def orderBy : Phrase := { lead := [.edge, .word "ORDER", .blanks, .word "BY", .edge] }

/-- The words that open a grouping. -/
def groupBy : Phrase := { lead := [.edge, .word "GROUP", .blanks, .word "BY", .edge] }

/-- The name of an aggregate function and the parenthesis behind it. -/
def aggregateCall : Phrase :=
  { lead := [.edge, .keyword ["COUNT", "SUM", "AVG", "MIN", "MAX"], .any Text.isBlank, .char '('] }

/-- A limit on the number of rows; its operand is the number. The blanks before it belong to it.
mirrors `limit_pattern` -/
def limit : Phrase :=
  { lead := [.any Text.isBlank, .edge, .word "LIMIT", .blanks], operand := [.digits] }

/-- A numbered placeholder for a list of values; its operand is the dollar sign and the number.
mirrors `in_pattern` -/
def inPlaceholder : Phrase :=
  { lead := [.edge, .word "IN", .blanks, .keyword ["SET", "LIST"], .blanks]
    operand := [.char '$', .digits] }

/-- A list of index hints. mirrors `hint_pattern` -/
def hintMarker : Phrase :=
  { lead := [.char '<', .word "HINT", .blanks, .any (· != '>'), .char '>'] }

/-- An import with its clause, up to the semicolon that ends it. mirrors `import_pattern` -/
def importMarker : Phrase :=
  { lead := [.edge, .word "IMPORT", .one Text.isBlank, .many (· != ';'), .char ';'] }

/-- The request for a trace. mirrors `trace_pattern` -/
def traceMarker : Phrase := { lead := [.char '<', .word "TRACE", .char '>'] }

/-- The path of a region. mirrors `region_pattern` -/
def regionPath : Phrase := { lead := [.path] }

/-! ## No phrase is empty -/

theorem select_visible : select.Visible := visible_of_consumes (by decide)

theorem limit_visible : limit.Visible := visible_of_consumes (by decide)

theorem inPlaceholder_visible : inPlaceholder.Visible := visible_of_consumes (by decide)

theorem regionPath_visible : regionPath.Visible := visible_of_consumes (by decide)

end GridQuery.Phrase
