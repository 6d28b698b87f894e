import QueryClause.Command
import QueryClause.Command.Arguments
import QueryClause.Journal

/-!
# Running a command

A session carries out what the command line asks for, with whatever way there is
to read files and standard input. It prints nothing: the answer holds the output,
the diagnostics, the exit code, and the entries for the journal.
-/

namespace QueryClause.Session

open Arguments

/-- The ways to read what stands outside the program. Standard input is absent
where it is a terminal. -/
structure Surroundings (m : Type → Type) where
  fileContent : String → m (Except FileFault ByteArray)
  standardInput : m (Except FileFault (Option ByteArray))

structure Answer where
  exitCode : Nat
  output : String
  diagnostics : String
  entries : List Journal.Entry
  deriving DecidableEq

def versionLine : String := "odata-sql 0.1.0"

def helpText : String :=
  "\n".intercalate
    ["Compile OData $filter and $orderby expressions into SQL",
     "",
     "Usage: odata-sql [-v] <command> <expression> [options]",
     "",
     "Commands:",
     "  filter   compile a $filter expression into a WHERE predicate",
     "  orderby  compile an $orderby expression into an ORDER BY clause",
     "  check    only validate the syntax of a $filter expression",
     "",
     "Options:",
     "  -f, --fields <source>   field map as a JSON file path or inline JSON",
     "  -s, --stable <column>   tie-breaking column of an orderby",
     "      --json              print one JSON object instead of plain text",
     "      --max-length <n>    longest accepted expression, in characters",
     "  -v, --verbose           log compiler decisions to stderr"]

/-- The source of the field map: the option, or else standard input. -/
def fieldSource {m : Type → Type} [Monad m] (surroundings : Surroundings m) :
    Option String → m (Except CommandError String)
  | some source => return .ok source
  | none => do
      match ← surroundings.standardInput with
      | .error fault => return .error (.file fault)
      | .ok none => return .error .noFieldMap
      | .ok (some content) => return Command.textOfBytes content

def fieldMap {m : Type → Type} [Monad m] (surroundings : Surroundings m) (source : Option String) :
    m (Except CommandError FieldMap) := do
  match ← fieldSource surroundings source with
  | .ok source => Command.loadFieldMap surroundings.fileContent source
  | .error error => return .error error

def paramLine (value : Value) (number : Nat) : String :=
  "  $" ++ number.repr ++ " = " ++ value.toJson.render ++ "\n"

def plainLines (rendered : Rendered) : String :=
  rendered.sql ++ "\n" ++
    String.join ((rendered.params.zipIdx 1).map fun (value, number) => paramLine value number)

def resultText (json : Bool) (rendered : Rendered) : String :=
  if json then rendered.toJson.render ++ "\n" else plainLines rendered

/-- The entries of a compilation that gets as far as the expression. -/
def compileEntries (target : Command.Target) (expression : String) (fields : FieldMap)
    (maxLength : Nat) : List Journal.Entry :=
  if expression.length ≤ maxLength then
    match target with
    | .filter =>
        match Filter.Compiler.ofRule fields {} with
        | .ok compiler => Journal.ofFilter compiler (some expression)
        | .error _ => []
    | .orderBy stable =>
        match Command.stableColumn stable with
        | .ok column => Journal.ofOrderBy expression fields column
        | .error _ => []
  else []

def checkEntries (expression : String) (maxLength : Nat) : List Journal.Entry :=
  if expression.length ≤ maxLength then Journal.ofParse (parse expression) else []

def conclude (entries : List Journal.Entry) : Except CommandError String → Answer
  | .ok output => ⟨0, output, "", entries⟩
  | .error error => ⟨error.exitCode, "", error.message ++ "\n", entries⟩

def runCompile {m : Type → Type} [Monad m] (surroundings : Surroundings m)
    (target : Command.Target) (expression : String) (options : CompileOptions) : m Answer := do
  match ← fieldMap surroundings options.fields with
  | .error error => return conclude [] (.error error)
  | .ok fields =>
      let entries := compileEntries target expression fields options.maxLength
      let rendered := Command.compile target expression fields options.maxLength
      return conclude entries (rendered.map (resultText options.json))

def runJob {m : Type → Type} [Monad m] (surroundings : Surroundings m) :
    Job → m Answer
  | .filter expression options => runCompile surroundings .filter expression options
  | .orderBy expression stable options =>
      runCompile surroundings (.orderBy stable) expression options
  | .check expression maxLength =>
      let outcome := Command.check expression maxLength
      return conclude (checkEntries expression maxLength)
        (outcome.map fun canonical => "Syntax is valid: " ++ canonical ++ "\n")

def run {m : Type → Type} [Monad m] (surroundings : Surroundings m) : Request → m Answer
  | .version => return ⟨0, versionLine ++ "\n", "", []⟩
  | .help => return ⟨0, helpText ++ "\n", "", []⟩
  | .run _ job => runJob surroundings job

end QueryClause.Session
