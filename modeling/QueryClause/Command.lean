import QueryClause.CommandError
import QueryClause.Filter
import QueryClause.Json.Result
import QueryClause.OrderBy

/-!
# Commands

What the commands of the program do, apart from reading arguments and files:
checking the syntax of an expression, compiling one against a field map, and
reading a field map from its source.
-/

namespace QueryClause.Command

def checkLength (expression : String) (maxLength : Nat) : Except CommandError Unit :=
  if expression.length ≤ maxLength then .ok ()
  else .error (.tooLong expression.length maxLength)

/-- Checks the syntax of a filter; the result is its canonical text. -/
def check (expression : String) (maxLength : Nat) : Except CommandError String := do
  checkLength expression maxLength
  return (← (parse expression).mapError .parse).canonical

inductive Target where
  | filter
  | orderBy (stable : Option String)
  deriving DecidableEq

def stableColumn : Option String → Except ConfigError (Option Column)
  | none => .ok none
  | some text => (Column.parse text).map some

def compileFragment (target : Target) (expression : String) (fields : FieldMap) :
    Except CommandError Fragment :=
  match target with
  | .filter => do
      let compiler ← (Filter.Compiler.ofRule fields {}).mapError .config
      (compiler.compile (some expression)).mapError .compile
  | .orderBy stable => do
      let column ← (stableColumn stable).mapError .config
      (OrderBy.compile expression fields column).mapError .compile

def compile (target : Target) (expression : String) (fields : FieldMap) (maxLength : Nat) :
    Except CommandError Rendered := do
  checkLength expression maxLength
  return (← compileFragment target expression fields).render

/-- Whether the source of a field map is its JSON text, and not the path of a file. -/
def isInline (source : String) : Bool :=
  (Text.trimStart source.toList).head? == some '\x7b'

def fieldMapOfText (text : String) : Except CommandError FieldMap :=
  (FieldMap.ofJsonText text).mapError .config

def textOfBytes (content : ByteArray) : Except CommandError String :=
  match String.fromUTF8? content with
  | some text => .ok text
  | none => .error (.file .invalidData)

def fieldMapOfContent (content : Except FileFault ByteArray) : Except CommandError FieldMap := do
  fieldMapOfText (← textOfBytes (← content.mapError .file))

/-- Reads a field map from its source, with a way to read files. -/
def loadFieldMap {m : Type → Type} [Monad m] (fileContent : String → m (Except FileFault ByteArray))
    (source : String) : m (Except CommandError FieldMap) :=
  if isInline source then return fieldMapOfText source
  else if source.toList.contains '\x00' then return .error (.file .invalidPath)
  else do return fieldMapOfContent (← fileContent source)

end QueryClause.Command
