import QueryClause.ParseError

/-!
# Compile errors

Why an expression could not be turned into SQL, and which side is to blame.
-/

namespace QueryClause

/-- Why a text could not be compiled. A field is refused with its position in a
filter, and without one in a sort order. -/
inductive CompileError where
  | unsupportedField (path : String) (span : Option Span)
  | unsupportedExpression (kind text : String) (span : Span)
  | malformed (reason : ParseError)
  deriving DecidableEq

/-- Which side caused an error: the author of the text, or the program that offers
less than the text may ask for. -/
inductive Category where
  | user
  | internal
  deriving DecidableEq, Repr

namespace CompileError

def message : CompileError → String
  | .unsupportedField path none => s!"the given OData field '{path}' is not supported"
  | .unsupportedField path (some span) =>
      let position := span.start
      s!"the given OData field '{path}' is not supported at position {position}"
  | .unsupportedExpression kind text span =>
      let position := span.start
      s!"the given OData {kind} expression '{text}' is not supported at position {position}"
  | .malformed reason => "the OData expression could not be parsed: " ++ reason.message

def category : CompileError → Category
  | .malformed _ => .user
  | .unsupportedField .. => .internal
  | .unsupportedExpression .. => .internal

def status (error : CompileError) : Nat :=
  match error.category with
  | .user => 400
  | .internal => 500

end CompileError

end QueryClause
