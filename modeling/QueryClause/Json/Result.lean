import QueryClause.Fragment
import QueryClause.Json.Reader

/-!
# Results as JSON

Bound values and rendered statements as JSON values. A decimal is written with all
its digits and read again as a JSON number.
-/

namespace QueryClause

def JsonNumber.parse? (text : String) : Option JsonNumber :=
  match Json.readNumber text.toList with
  | some (number, []) => some number
  | _ => none

/-- A decimal as JSON: the number that its text denotes, or else the text itself. -/
def Decimal.toJson (decimal : Decimal) : Json :=
  match JsonNumber.parse? decimal.text with
  | some number => .number number
  | none => .text decimal.text

def Value.toJson : Value → Json
  | .null => .null
  | .text content => .text content
  | .number decimal => decimal.toJson
  | .boolean truth => .boolean truth
  | .timestamp written => .text written

def Rendered.toJson (rendered : Rendered) : Json :=
  .object [("params", .array (rendered.params.map Value.toJson)), ("sql", .text rendered.sql)]

end QueryClause
