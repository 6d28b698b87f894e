import QueryClause.Lexeme

/-!
# Parse errors

Why a text is not an expression: a lexical fault, a token that cannot stand where
it stands, or a tree that is too tall.
-/

namespace QueryClause

/-- The greatest height of an expression tree, and the greatest count of nestings. -/
def maxDepth : Nat := 128

/-- What can stand where a token was refused. -/
inductive Expectation where
  | expression
  | operatorOrEnd
  | openParen
  | closeParen
  deriving DecidableEq, Repr

def Expectation.describe : Expectation → String
  | .expression => "an expression"
  | .operatorOrEnd => "an operator or end of input"
  | .openParen => Token.openParen.describe
  | .closeParen => Token.closeParen.describe

inductive ParseError where
  | lexical (error : LexError)
  | unexpectedToken (expected : Expectation) (found : Token) (span : Span)
  | tooDeep (span : Span)
  deriving DecidableEq

namespace ParseError

def position : ParseError → Nat
  | .lexical error => error.position
  | .unexpectedToken _ _ span => span.start
  | .tooDeep span => span.start

def message (error : ParseError) : String :=
  let position := error.position
  match error with
  | .lexical error => error.message
  | .unexpectedToken expected found _ =>
      let wanted := expected.describe
      let got := found.describe
      s!"expected {wanted}, got {got} at position {position}"
  | .tooDeep _ => s!"expression nests deeper than {maxDepth} levels at position {position}"

end ParseError

end QueryClause
