import GridQuery.Text.Blank
/-!
# Query methods

What a repository declares for one of its query methods: the entity, the shape of the result, the
directives that decorate the query, and the query texts that the method carries itself.
-/

namespace GridQuery

/-- The shape that a method declares for its result. mirrors `ReturnShape` -/
inductive ResultShape where
  /-- Every row, in order. -/
  | collection
  /-- One page of rows. -/
  | page
  /-- At most one entity. -/
  | single
  /-- One value. -/
  | scalar
  /-- Nothing. -/
  | void
deriving DecidableEq, Repr

/-- The name of a shape. -/
def ResultShape.name : ResultShape → String
  | .collection => "Collection"
  | .page => "Page"
  | .single => "Single"
  | .scalar => "Scalar"
  | .void => "Void"

/-- The property that holds the key of an entity unless another one is named. -/
def defaultKey : String := "id"

/-- Where an entity lives in the grid and which property is its key. mirrors `EntityMetadata` -/
structure Entity where
  name : String
  /-- The region of the entity, where it is not the one named after it. -/
  regionPath : Option String := none
  key : String := defaultKey
deriving DecidableEq, Repr

/-- The region that the entity is read from. mirrors `EntityMetadata.region` -/
def Entity.region (e : Entity) : String := e.regionPath.getD e.name

/-- A query method of a repository. mirrors `QueryMethod` -/
structure Method where
  name : String
  entity : Entity
  shape : ResultShape
  limit : Option Nat := none
  importText : Option String := none
  hints : List String := []
  trace : Bool := false
  /-- The query text that the method is annotated with. -/
  query : Option String := none
  /-- The text of the query that counts the rows on all pages. -/
  countQuery : Option String := none
deriving DecidableEq, Repr

/-- The text, unless it is blank. -/
def visible? (text : String) : Option String :=
  if Text.isBlankText text.toList then none else some text

namespace Method

/-- Whether a limit is declared. mirrors `QueryMethod.has_limit` -/
def hasLimit (m : Method) : Bool := m.limit.isSome

/-- The import, if one is declared that is not blank. -/
def import? (m : Method) : Option String := m.importText.bind visible?

/-- Whether an import is declared that is not blank. mirrors `QueryMethod.has_import` -/
def hasImport (m : Method) : Bool := m.import?.isSome

/-- Whether a hint is declared that is not blank. mirrors `QueryMethod.has_hints` -/
def hasHints (m : Method) : Bool := m.hints.any fun h => (visible? h).isSome

/-- The query text, if the method is annotated with one that is not blank. -/
def annotation? (m : Method) : Option String := m.query.bind visible?

/-- Whether the method carries its own query text. mirrors `QueryMethod.is_annotated_query` -/
def hasQuery (m : Method) : Bool := m.annotation?.isSome

/-- The count query, if one is declared that is not blank. -/
def count? (m : Method) : Option String := m.countQuery.bind visible?

/-- Whether the method asks for a page. mirrors `QueryMethod.is_page_query` -/
def isPaged (m : Method) : Bool := m.shape == .page

/-- Whether the method asks for every row. mirrors `QueryMethod.is_collection_query` -/
def isCollection (m : Method) : Bool := m.shape == .collection

end Method

end GridQuery
