import QueryClause.Command.Session

/-!
# The program

Reads the arguments, the files and standard input, and prints the answer of a
session.
-/

namespace QueryClause.Program

def fileFault : IO.Error → FileFault
  | .noFileOrDirectory .. => .notFound
  | .inappropriateType .. => .isDirectory
  | error => .other (toString error)

/-- Reads with errors as faults. -/
def attempt {α : Type} (action : IO α) : IO (Except FileFault α) := do
  try
    return .ok (← action)
  catch error =>
    return .error (fileFault error)

def surroundings : Session.Surroundings IO where
  fileContent path := attempt (IO.FS.readBinFile path)
  standardInput := do
    let input ← IO.getStdin
    if ← input.isTty then return .ok none
    else attempt (some <$> input.readBinToEnd)

/-- Whether an entry is shown: warnings always, and decisions if asked for. -/
def isShown (verbose : Bool) (entry : Journal.Entry) : Bool :=
  match entry.level with
  | .trace => false
  | .debug => verbose
  | .warn => true

def entryLine (entry : Journal.Entry) : String :=
  let details := entry.details.map fun (name, value) => " " ++ name ++ "=" ++ value
  entry.level.name ++ " " ++ entry.message ++ String.join details

end QueryClause.Program

open QueryClause in
def main (arguments : List String) : IO UInt32 := do
  match Arguments.read arguments with
  | .error error =>
      IO.eprintln ("error: " ++ error.message)
      return UInt32.ofNat Arguments.UsageError.exitCode
  | .ok request =>
      let answer ← Session.run Program.surroundings request
      let verbose := match request with
        | .run verbose _ => verbose
        | _ => false
      for entry in answer.entries do
        if Program.isShown verbose entry then IO.eprintln (Program.entryLine entry)
      IO.print answer.output
      IO.eprint answer.diagnostics
      return UInt32.ofNat answer.exitCode
