import QueryClause.Filter
import QueryClause.OrderBy

/-!
# Journal

The entries that parsing and compiling write to a journal. Each is a matter of
what was asked and what came of it, so they are told apart from the work itself.
-/

namespace QueryClause.Journal

/-- How much an entry matters, from least to most. -/
inductive Level where
  | trace
  | debug
  | warn
  deriving DecidableEq, Repr

def Level.name : Level → String
  | .trace => "TRACE"
  | .debug => "DEBUG"
  | .warn => "WARN"

structure Entry where
  level : Level
  message : String
  details : List (String × String)
  deriving DecidableEq

def parsed (expression : Expr) : Entry :=
  ⟨.trace, "parsed filter expression", [("node", expression.kind)]⟩

/-- The entries for the outcome of a parse; a failure writes none. -/
def ofParse : Except ParseError Expr → List Entry
  | .ok expression => [parsed expression]
  | .error _ => []

def ofExpression : Except CompileError Fragment → Entry
  | .ok fragment => ⟨.debug, "compiled $filter", [("sql", fragment.render.sql)]⟩
  | .error error => ⟨.warn, "rejected $filter", [("error", error.message)]⟩

/-- The entries for compiling the text of a filter. -/
def ofFilter (compiler : Filter.Compiler) (text : Option String) : List Entry :=
  match Filter.significant? text with
  | none => []
  | some text =>
      match parse text with
      | .ok expression => [parsed expression, ofExpression (compiler.compileExpr expression)]
      | .error reason => [⟨.debug, "rejected unparseable $filter", [("error", reason.message)]⟩]

def ofFault : OrderBy.Fault → Entry
  | .unknownField field => ⟨.warn, "rejected $orderby field", [("field", field)]⟩
  | .badDirection word => ⟨.warn, "rejected $orderby direction", [("direction", word)]⟩
  | .trailingText word => ⟨.warn, "rejected trailing $orderby text", [("extra", word)]⟩

def ofOrderBy (text : String) (fields : FieldMap) (stable : Option Column) : List Entry :=
  match OrderBy.sortKeys fields text with
  | .ok keys =>
      let fragment := OrderBy.orderFragment (OrderBy.withStable keys stable)
      [⟨.debug, "compiled $orderby", [("sql", fragment.render.sql)]⟩]
  | .error fault => [ofFault fault]

end QueryClause.Journal
