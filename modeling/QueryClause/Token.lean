import QueryClause.Operator
import QueryClause.Value

/-!
# Tokens

The tokens of an expression, and the words that diagnostics use for them.
-/

namespace QueryClause

/-- A token: a literal value, the path of a field or the name of a function, an
operator, or a delimiter. The end of the text is a token too. -/
inductive Token where
  | literal (value : Value)
  | identifier (name : String)
  | binary (operator : BinaryOp)
  | not
  | minus
  | openParen
  | closeParen
  | comma
  | endOfInput
  deriving DecidableEq

namespace Token

def inQuotes (text : String) : String :=
  "'" ++ text ++ "'"

def describe : Token → String
  | .literal .null => inQuotes "null"
  | .literal (.text _) => "string literal"
  | .literal (.number decimal) => "number " ++ decimal.text
  | .literal (.boolean truth) => inQuotes (if truth then "true" else "false")
  | .literal (.timestamp written) => "date-time " ++ written
  | .identifier name => "identifier " ++ inQuotes name
  | .binary operator => inQuotes operator.keyword
  | .not => inQuotes "not"
  | .minus => inQuotes "-"
  | .openParen => inQuotes "("
  | .closeParen => inQuotes ")"
  | .comma => inQuotes ","
  | .endOfInput => "end of input"

def keyword? : String → Option Token
  | "eq" => some (.binary .eq)
  | "ne" => some (.binary .ne)
  | "lt" => some (.binary .lt)
  | "le" => some (.binary .le)
  | "gt" => some (.binary .gt)
  | "ge" => some (.binary .ge)
  | "and" => some (.binary .and)
  | "or" => some (.binary .or)
  | "add" => some (.binary .add)
  | "sub" => some (.binary .sub)
  | "mul" => some (.binary .mul)
  | "div" => some (.binary .div)
  | "mod" => some (.binary .mod)
  | "not" => some .not
  | "true" => some (.literal (.boolean true))
  | "false" => some (.literal (.boolean false))
  | "null" => some (.literal .null)
  | _ => none

end Token

end QueryClause
