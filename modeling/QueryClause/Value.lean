import QueryClause.Decimal

/-!
# Scalar values

The values that literals of an expression denote, and that a statement takes as
parameters.
-/

namespace QueryClause

/-- A scalar value. A timestamp is a date or a date with a time, kept as written. -/
inductive Value where
  | null
  | text (content : String)
  | number (decimal : Decimal)
  | boolean (truth : Bool)
  | timestamp (written : String)
  deriving DecidableEq

namespace Value

/-- Equality of values, where numbers are equal if they have the same value. -/
def same : Value → Value → Bool
  | .number first, .number second => first.sameValue second
  | first, second => first == second

end Value

end QueryClause
