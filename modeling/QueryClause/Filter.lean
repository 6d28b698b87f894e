import QueryClause.CompileError
import QueryClause.FieldMap
import QueryClause.Fragment
import QueryClause.Parser

/-!
# Filters

A filter expression becomes an SQL predicate. Every operator brings its own
parentheses, so that the grouping of the tree survives inside a larger statement.

Rows that are marked as deleted are excluded by a condition on the column of the
deletion time. The condition is left out where the expression names the very
field that the column was found under, which is how deleted rows are asked for.
-/

namespace QueryClause.Filter

structure Rule where
  deletedAtField : String := "__system/deletedAt"
  rootPrefixes : List String := ["$root/Submissions/"]
  deriving DecidableEq

/-- The fields to look under, in order: the field itself, then the field behind
each root. -/
def Rule.keys (rule : Rule) : List String :=
  rule.deletedAtField :: rule.rootPrefixes.map fun root => root ++ rule.deletedAtField

/-- What a compilation refers to: the fields, and the deletion time with the field
it was found under. -/
structure Compiler where
  fields : FieldMap
  deletedAtKey : String
  deletedAt : Column
  deriving DecidableEq

def firstField? (fields : FieldMap) : List String → Option (String × Column)
  | [] => none
  | key :: rest =>
      match fields.get? key with
      | some column => some (key, column)
      | none => firstField? fields rest

def Compiler.ofRule (fields : FieldMap) (rule : Rule) : Except ConfigError Compiler :=
  match firstField? fields rule.keys with
  | some (key, column) => .ok ⟨fields, key, column⟩
  | none => .error (.missingDeletedAt rule.keys)

inductive DatePart where
  | year | month | day | hour | minute | second
  deriving DecidableEq, Repr

def foldCase (name : String) : String :=
  String.ofList (name.toList.map Char.toLower)

def DatePart.ofFunction? (name : String) : Option DatePart :=
  match foldCase name with
  | "year" => some .year
  | "month" => some .month
  | "day" => some .day
  | "hour" => some .hour
  | "minute" => some .minute
  | "second" => some .second
  | _ => none

def DatePart.keyword : DatePart → String
  | .year => "YEAR"
  | .month => "MONTH"
  | .day => "DAY"
  | .hour => "HOUR"
  | .minute => "MINUTE"
  | .second => "SECOND"

/-- The SQL of a binary operator. Equality treats null as a value. Arithmetic has
no SQL. -/
def operatorSql? : BinaryOp → Option String
  | .eq => some " IS NOT DISTINCT FROM "
  | .ne => some " IS DISTINCT FROM "
  | .lt => some " < "
  | .le => some " <= "
  | .gt => some " > "
  | .ge => some " >= "
  | .and => some " AND "
  | .or => some " OR "
  | .add | .sub | .mul | .div | .mod => none

/-- The fragment of a literal: null is a keyword, every other value is bound. -/
def literalFragment : Value → Fragment
  | .null => .keyword "NULL"
  | bound => .value bound

structure Compiled where
  fragment : Fragment
  namesDeletedAt : Bool
  deriving DecidableEq

def Compiled.combine (operator : String) (left right : Compiled) : Compiled :=
  ⟨(left.fragment ++ .keyword operator ++ right.fragment).parenthesized,
    left.namesDeletedAt || right.namesDeletedAt⟩

def Compiled.enclose (before : Fragment) (inner : Compiled) (after : String) : Compiled :=
  ⟨before ++ inner.fragment ++ .keyword after, inner.namesDeletedAt⟩

/-- The text of a filter without blanks at its ends, unless it is absent or blank. -/
def significant? : Option String → Option String
  | none => none
  | some text =>
      match Text.trim text.toList with
      | [] => none
      | chars => some (String.ofList chars)

namespace Compiler

/-- Compiles an expression alone. What is not supported is refused before the
expressions below it are looked at. -/
def walk (compiler : Compiler) : Expr → Except CompileError Compiled
  | .member path span =>
      match compiler.fields.get? path with
      | some column => .ok ⟨.identifier column, path == compiler.deletedAtKey⟩
      | none => .error (.unsupportedField path (some span))
  | .literal _ value _ => .ok ⟨literalFragment value, false⟩
  | .unary .not operand _ => do
      return (← compiler.walk operand).enclose (.keyword "(NOT ") ")"
  | .unary .negate operand span =>
      .error (.unsupportedExpression (Expr.unary .negate operand span).kind
        UnaryOp.negate.keyword span)
  | .binary operator left right span =>
      match operatorSql? operator with
      | some sql => do
          let left ← compiler.walk left
          let right ← compiler.walk right
          return left.combine sql right
      | none =>
          .error (.unsupportedExpression (Expr.binary operator left right span).kind
            operator.keyword span)
  | .call name [argument] span =>
      match DatePart.ofFunction? name with
      | some part => do
          let inner ← compiler.walk argument
          return inner.enclose (.keyword "EXTRACT(" ++ .keyword part.keyword ++ .keyword " FROM ") ")"
      | none => .error (.unsupportedExpression (Expr.call name [argument] span).kind name span)
  | .call name arguments span =>
      if arguments.isEmpty && foldCase name == "now" then .ok ⟨.keyword "now()", false⟩
      else .error (.unsupportedExpression (Expr.call name arguments span).kind name span)
  | .paren inner _ => compiler.walk inner

def excludeDeleted (compiler : Compiler) : Fragment :=
  .identifier compiler.deletedAt ++ .keyword " IS NULL"

def restrict (compiler : Compiler) (compiled : Compiled) : Fragment :=
  if compiled.namesDeletedAt then compiled.fragment
  else compiled.fragment ++ .keyword " AND " ++ compiler.excludeDeleted

def compileExpr (compiler : Compiler) (expression : Expr) : Except CompileError Fragment := do
  return compiler.restrict (← compiler.walk expression)

/-- Compiles the text of a filter. An absent or blank text only excludes deleted
rows. -/
def compile (compiler : Compiler) (text : Option String) : Except CompileError Fragment :=
  match significant? text with
  | none => .ok compiler.excludeDeleted
  | some text =>
      match parse text with
      | .ok expression => compiler.compileExpr expression
      | .error reason => .error (.malformed reason)

end Compiler

/-- Why a filter could not be compiled against a field map: the map is unfit for
filters, or the text is refused. -/
inductive Failure where
  | misconfigured (error : ConfigError)
  | rejected (error : CompileError)
  deriving DecidableEq

/-- Compiles the text of a filter with the usual rule on deleted rows. -/
def compile (text : Option String) (fields : FieldMap) : Except Failure Fragment :=
  match Compiler.ofRule fields {} with
  | .ok compiler => (compiler.compile text).mapError .rejected
  | .error error => .error (.misconfigured error)

end QueryClause.Filter
