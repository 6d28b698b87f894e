import QueryClause.CompileError
import QueryClause.ConfigError

/-!
# Errors of commands

Why a command failed, and the exit code that tells so: two where the expression
is at fault, and one otherwise.
-/

namespace QueryClause

/-- Why a file could not be read as text. -/
inductive FileFault where
  | notFound
  | isDirectory
  | invalidData
  | invalidPath
  | other (reason : String)
  deriving DecidableEq

def FileFault.message : FileFault → String
  | .notFound => "no such file"
  | .isDirectory => "is a directory"
  | .invalidData => "the content is not valid UTF-8"
  | .invalidPath => "the path holds a null character"
  | .other reason => reason

inductive CommandError where
  | parse (error : ParseError)
  | compile (error : CompileError)
  | config (error : ConfigError)
  | file (fault : FileFault)
  | noFieldMap
  | tooLong (length limit : Nat)
  deriving DecidableEq

namespace CommandError

def message : CommandError → String
  | .parse error => "Parse error: " ++ error.message
  | .compile error => error.message
  | .config error => "Configuration error: " ++ error.message
  | .file fault => "IO error: " ++ fault.message
  | .noFieldMap => "No field map provided. Use --fields or pipe JSON to stdin."
  | .tooLong length limit => s!"Expression is {length} characters long, the limit is {limit}"

def exitCode : CommandError → Nat
  | .parse _ => 2
  | .tooLong .. => 2
  | .compile error => if error.category = .user then 2 else 1
  | .config _ => 1
  | .file _ => 1
  | .noFieldMap => 1

end CommandError

end QueryClause
