/-!
# Operators

The operators of expressions, each with the keyword that writes it. Binary
operators fall into five tiers, from the loosest binding to the tightest.
-/

namespace QueryClause

inductive BinaryOp where
  | eq | ne | lt | le | gt | ge
  | and | or
  | add | sub | mul | div | mod
  deriving DecidableEq, Repr

/-- How tightly a binary operator binds. Comparisons do not chain; the operators
of every other tier group to the left. -/
inductive Tier where
  | disjunction | conjunction | comparison | sum | product
  deriving DecidableEq, Repr

namespace BinaryOp

def keyword : BinaryOp → String
  | .eq => "eq"
  | .ne => "ne"
  | .lt => "lt"
  | .le => "le"
  | .gt => "gt"
  | .ge => "ge"
  | .and => "and"
  | .or => "or"
  | .add => "add"
  | .sub => "sub"
  | .mul => "mul"
  | .div => "div"
  | .mod => "mod"

def tier : BinaryOp → Tier
  | .eq | .ne | .lt | .le | .gt | .ge => .comparison
  | .and => .conjunction
  | .or => .disjunction
  | .add | .sub => .sum
  | .mul | .div | .mod => .product

end BinaryOp

inductive UnaryOp where
  | not | negate
  deriving DecidableEq, Repr

namespace UnaryOp

def keyword : UnaryOp → String
  | .not => "not"
  | .negate => "-"

end UnaryOp

end QueryClause
