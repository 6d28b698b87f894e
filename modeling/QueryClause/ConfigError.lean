/-!
# Configuration errors

What can be wrong with the field map and the columns that the calling program
provides, as opposed to what a user of that program writes.
-/

namespace QueryClause

/-- A defect of a column, a field map, or its JSON text. -/
inductive ConfigError where
  | invalidColumn (text : String)
  | missingDeletedAt (keys : List String)
  | notAnObject
  | columnNotText (field : String)
  | invalidJson
  deriving DecidableEq

def ConfigError.message : ConfigError → String
  | .invalidColumn text =>
      s!"invalid column reference '{text}': expected dot-separated, non-empty names"
  | .missingDeletedAt keys =>
      "field map has no soft-delete column (looked for " ++ ", ".intercalate keys ++ ")"
  | .notAnObject => "invalid field map: expected a JSON object"
  | .columnNotText field => s!"invalid field map: column for field '{field}' must be a string"
  | .invalidJson => "field map is not valid JSON: malformed text"

end QueryClause
