import QueryClause.Column
import QueryClause.Dictionary
import QueryClause.Json.Reader

/-!
# Field maps

A field map says which fields an expression may name, and the column of each.
Fields are compared exactly. A map can be built from pairs of texts, from columns,
or from a JSON object.
-/

namespace QueryClause

abbrev FieldMap := Dictionary Column

namespace FieldMap

def add (map : FieldMap) (field column : String) : Except ConfigError FieldMap := do
  return map.insert field (← Column.parse column)

/-- The map of a list of fields and dotted names. The first bad name fails; a
later pair replaces an earlier one with its field. -/
def ofPairs (pairs : List (String × String)) : Except ConfigError FieldMap :=
  pairs.foldlM (fun map pair => add map pair.1 pair.2) Dictionary.empty

def addJson (map : FieldMap) (field : String) : Json → Except ConfigError FieldMap
  | .text column => add map field column
  | _ => .error (.columnNotText field)

/-- The map of a JSON object. Of members with one name the last one counts; the
members are visited in ascending order of their names. -/
def ofJson : Json → Except ConfigError FieldMap
  | .object members =>
      (Dictionary.ofList members).entries.foldlM (fun map member => addJson map member.1 member.2)
        Dictionary.empty
  | _ => .error .notAnObject

def ofJsonText (text : String) : Except ConfigError FieldMap :=
  match Json.parse? text with
  | some value => ofJson value
  | none => .error .invalidJson

end FieldMap

end QueryClause
