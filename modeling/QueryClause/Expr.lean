import QueryClause.Operator
import QueryClause.Span
import QueryClause.Value

/-!
# Expressions

The tree of an expression. Every node keeps the span it was read from, a literal
also its written form, and parentheses that were written are nodes of their own.
-/

namespace QueryClause

inductive Expr where
  | member (path : String) (span : Span)
  | literal (written : String) (value : Value) (span : Span)
  | unary (operator : UnaryOp) (operand : Expr) (span : Span)
  | binary (operator : BinaryOp) (left right : Expr) (span : Span)
  | call (name : String) (arguments : List Expr) (span : Span)
  | paren (inner : Expr) (span : Span)

namespace Expr

def span : Expr → Span
  | .member _ span => span
  | .literal _ _ span => span
  | .unary _ _ span => span
  | .binary _ _ _ span => span
  | .call _ _ span => span
  | .paren _ span => span

def children : Expr → List Expr
  | .member .. => []
  | .literal .. => []
  | .unary _ operand _ => [operand]
  | .binary _ left right _ => [left, right]
  | .call _ arguments _ => arguments
  | .paren inner _ => [inner]

def kind : Expr → String
  | .member .. => "member"
  | .literal .. => "literal"
  | .unary .not .. => "not"
  | .unary .negate .. => "negate"
  | .binary operator .. => operator.keyword
  | .call .. => "call"
  | .paren .. => "paren"

mutual

/-- The number of nodes on the longest path down to a leaf. -/
def height : Expr → Nat
  | .member .. => 1
  | .literal .. => 1
  | .unary _ operand _ => operand.height + 1
  | .binary _ left right _ => max left.height right.height + 1
  | .call _ arguments _ => greatestHeight arguments + 1
  | .paren inner _ => inner.height + 1

def greatestHeight : List Expr → Nat
  | [] => 0
  | first :: rest => max first.height (greatestHeight rest)

end

mutual

/-- The expression and all below it, each node before its children, and children
from left to right. -/
def preorder : Expr → List Expr
  | .member path span => [.member path span]
  | .literal written value span => [.literal written value span]
  | .unary operator operand span => .unary operator operand span :: operand.preorder
  | .binary operator left right span =>
      .binary operator left right span :: left.preorder ++ right.preorder
  | .call name arguments span => .call name arguments span :: preorderAll arguments
  | .paren inner span => .paren inner span :: inner.preorder

def preorderAll : List Expr → List Expr
  | [] => []
  | first :: rest => first.preorder ++ preorderAll rest

end

theorem preorderAll_eq (expressions : List Expr) :
    preorderAll expressions = expressions.flatMap preorder := by
  induction expressions with
  | nil => rfl
  | cons first rest ih => rw [preorderAll, ih, List.flatMap_cons]

mutual

/-- Canonical text: single blanks around operators, and only the parentheses that
were written. -/
def canonical : Expr → String
  | .member path _ => path
  | .literal written _ _ => written
  | .unary .not operand _ => "not " ++ operand.canonical
  | .unary .negate operand _ => "-" ++ operand.canonical
  | .binary operator left right _ =>
      left.canonical ++ " " ++ operator.keyword ++ " " ++ right.canonical
  | .call name arguments _ => name ++ "(" ++ ", ".intercalate (canonicalAll arguments) ++ ")"
  | .paren inner _ => "(" ++ inner.canonical ++ ")"

def canonicalAll : List Expr → List String
  | [] => []
  | first :: rest => first.canonical :: canonicalAll rest

end

end Expr

end QueryClause
