import GridQuery.Config
import GridQuery.Json.Page
import GridQuery.Json.Parser
import GridQuery.Json.Printer
/-!
# Reading and writing JSON texts

A type of the grid is read from a whole text, within the depth that is allowed, and written without
blanks.
-/

namespace GridQuery

/-- A type with a JSON form. -/
class JsonForm (α : Type) where
  toJson : α → Json
  /-- Reads a value, with room for so many arrays and objects inside one another. -/
  ofJson? : (depth : Nat) → Json → Option α

instance : JsonForm Value := ⟨Value.toJson, Value.ofJson?⟩
instance : JsonForm ResultSet := ⟨ResultSet.toJson, ResultSet.ofJson?⟩
instance : JsonForm Sorting := ⟨Sorting.toJson, Sorting.ofJson?⟩
instance : JsonForm PageRequest := ⟨PageRequest.toJson, PageRequest.ofJson?⟩
instance : JsonForm Page := ⟨Page.toJson, Page.ofJson?⟩

/-- The JSON text of a value. -/
def writeJson {α : Type} [JsonForm α] (x : α) : List Char := (JsonForm.toJson x).render

/-- The value that a JSON text writes. -/
def readJson? (α : Type) [JsonForm α] (s : List Char) : Option α :=
  (Json.parse? s).bind (JsonForm.ofJson? Json.maxDepth)

namespace Config

/-- The configuration as JSON. -/
def toJson (c : Config) : Json :=
  .record [("two_phase_threshold", .ofSize c.twoPhaseThreshold),
    ("two_phase_enabled", .bool c.twoPhaseEnabled)]

/-- The configuration that is written as JSON. Missing fields take their defaults. -/
def ofJson? : (depth : Nat) → Json → Option Config
  | _ + 1, j => do
    match ← j.optionalFields? ["two_phase_threshold", "two_phase_enabled"] with
    | [threshold, enabled] =>
      let threshold ← match threshold with
        | none => some ({} : Config).twoPhaseThreshold
        | some j => j.size?
      let enabled ← match enabled with
        | none => some ({} : Config).twoPhaseEnabled
        | some (.bool b) => some b
        | some _ => none
      some { twoPhaseThreshold := threshold, twoPhaseEnabled := enabled }
    | _ => none
  | 0, _ => none

instance : JsonForm Config := ⟨toJson, ofJson?⟩

/-- The configuration that a JSON text writes, if it can be used.
mirrors `ExecutorConfig.from_json` -/
def ofJsonText (text : String) : Except QueryError Config := do
  match readJson? Config text.toList with
  | none => throw (.config .malformed)
  | some c =>
    c.check
    pure c

end Config

end GridQuery
