/-!
# Arguments of the command line

The program takes a command with one expression and options, which may stand on
either side of the expression. An option with a value takes it from the same
argument or from the next one; short options may be written together. Two dashes
alone end the options. An argument of one dash is not an option.
-/

namespace QueryClause.Arguments

structure CompileOptions where
  fields : Option String
  json : Bool
  maxLength : Nat
  deriving DecidableEq

inductive Job where
  | filter (expression : String) (options : CompileOptions)
  | orderBy (expression : String) (stable : Option String) (options : CompileOptions)
  | check (expression : String) (maxLength : Nat)
  deriving DecidableEq

inductive Request where
  | run (verbose : Bool) (job : Job)
  | version
  | help
  deriving DecidableEq

inductive UsageError where
  | missingCommand
  | unknownCommand (name : String)
  | missingExpression
  | extraArgument (argument : String)
  | unknownOption (option : String)
  | repeatedOption (option : String)
  | missingValue (option : String)
  | unneededValue (option : String)
  | invalidNumber (text : String)
  deriving DecidableEq

def UsageError.message : UsageError → String
  | .missingCommand => "a command is required: filter, orderby or check"
  | .unknownCommand name => s!"unknown command '{name}'"
  | .missingExpression => "an expression is required"
  | .extraArgument argument => s!"unexpected argument '{argument}'"
  | .unknownOption option => s!"unknown option '{option}'"
  | .repeatedOption option => s!"option '{option}' is given more than once"
  | .missingValue option => s!"option '{option}' needs a value"
  | .unneededValue option => s!"option '{option}' takes no value"
  | .invalidNumber text => s!"'{text}' is not a length"

def UsageError.exitCode : Nat := 2

/-- Why the reading of arguments ends early. -/
inductive Stop where
  | answered (request : Request)
  | wrong (error : UsageError)

inductive Verb where
  | filter | orderBy | check
  deriving DecidableEq, Repr

/-- The command of a name, which is compared exactly. -/
def Verb.ofName? : String → Option Verb
  | "filter" => some .filter
  | "orderby" => some .orderBy
  | "check" => some .check
  | _ => none

inductive Flag where
  | verbose | json | help | fields | stable | maxLength
  deriving DecidableEq, Repr

namespace Flag

def ofLong? : String → Option Flag
  | "verbose" => some .verbose
  | "json" => some .json
  | "help" => some .help
  | "fields" => some .fields
  | "stable" => some .stable
  | "max-length" => some .maxLength
  | _ => none

def ofShort? : Char → Option Flag
  | 'v' => some .verbose
  | 'h' => some .help
  | 'f' => some .fields
  | 's' => some .stable
  | _ => none

def needsValue : Flag → Bool
  | .verbose | .json | .help => false
  | .fields | .stable | .maxLength => true

def fits (verb : Verb) : Flag → Bool
  | .verbose | .help | .maxLength => true
  | .json | .fields => verb != .check
  | .stable => verb == .orderBy

end Flag

structure Settings where
  verbose : Bool := false
  json : Bool := false
  fields : Option String := none
  stable : Option String := none
  maxLength : Option Nat := none
  expression : Option String := none
  deriving DecidableEq

/-- The longest expression that is accepted where no other length is given. -/
def usualMaxLength : Nat := 4096

/-- Reads a length of 64 bits; a plus sign may stand in front. -/
def readLength? (text : String) : Option Nat :=
  let digits := match text.toList with
    | '+' :: digits => digits
    | digits => digits
  if digits.isEmpty || !digits.all Char.isDigit then none
  else
    let value := digits.foldl (fun value digit => value * 10 + (digit.toNat - '0'.toNat)) 0
    if value < Nat.pow 2 64 then some value else none

namespace Settings

def switch (settings : Settings) (name : String) : Flag → Except Stop Settings
  | .verbose =>
      if settings.verbose then .error (.wrong (.repeatedOption name))
      else .ok { settings with verbose := true }
  | .json =>
      if settings.json then .error (.wrong (.repeatedOption name))
      else .ok { settings with json := true }
  | .help => .error (.answered .help)
  | .fields | .stable | .maxLength => .error (.wrong (.missingValue name))

def assign (settings : Settings) (name : String) (value : String) : Flag → Except Stop Settings
  | .fields =>
      if settings.fields.isSome then .error (.wrong (.repeatedOption name))
      else .ok { settings with fields := some value }
  | .stable =>
      if settings.stable.isSome then .error (.wrong (.repeatedOption name))
      else .ok { settings with stable := some value }
  | .maxLength =>
      if settings.maxLength.isSome then .error (.wrong (.repeatedOption name))
      else
        match readLength? value with
        | some length => .ok { settings with maxLength := some length }
        | none => .error (.wrong (.invalidNumber value))
  | .verbose | .json | .help => .error (.wrong (.unneededValue name))

/-- Takes an argument that is no option. -/
def place (settings : Settings) (argument : String) : Except Stop Settings :=
  if settings.expression.isSome then .error (.wrong (.extraArgument argument))
  else .ok { settings with expression := some argument }

def job (settings : Settings) (verb : Verb) : Except Stop Job :=
  match settings.expression with
  | none => .error (.wrong .missingExpression)
  | some expression =>
      let maxLength := settings.maxLength.getD usualMaxLength
      let options : CompileOptions := ⟨settings.fields, settings.json, maxLength⟩
      match verb with
      | .filter => .ok (.filter expression options)
      | .orderBy => .ok (.orderBy expression settings.stable options)
      | .check => .ok (.check expression maxLength)

end Settings

inductive Shape where
  | plain
  | endOfOptions
  | long (name : String) (attached : Option String)
  | short (cluster : List Char)
  deriving DecidableEq

def shape (argument : String) : Shape :=
  match argument.toList with
  | ['-', '-'] => .endOfOptions
  | '-' :: '-' :: rest =>
      match rest.dropWhile fun char => char != '=' with
      | [] => .long (String.ofList rest) none
      | _ :: value =>
          .long (String.ofList (rest.takeWhile fun char => char != '=')) (some (String.ofList value))
  | ['-'] => .plain
  | '-' :: cluster => .short cluster
  | _ => .plain

/-- What a cluster of short options leaves to do: nothing, or a value to find. -/
inductive Pending where
  | done (settings : Settings)
  | awaits (settings : Settings) (flag : Flag)

/-- Reads a cluster of short options. The rest of the cluster is the value of the
first option that needs one; an equals sign before the value is dropped. -/
def readCluster (verb : Verb) (settings : Settings) : List Char → Except Stop Pending
  | [] => .ok (.done settings)
  | char :: rest =>
      let name := String.ofList ['-', char]
      match (Flag.ofShort? char).filter (Flag.fits verb) with
      | none => .error (.wrong (.unknownOption name))
      | some flag =>
          if flag.needsValue then
            match rest with
            | [] => .ok (.awaits settings flag)
            | '=' :: value => (settings.assign name (String.ofList value) flag).map .done
            | value => (settings.assign name (String.ofList value) flag).map .done
          else do readCluster verb (← settings.switch name flag) rest

def readLong (verb : Verb) (settings : Settings) (name : String) (attached : Option String) :
    Except Stop Pending :=
  let shown := "--" ++ name
  match (Flag.ofLong? name).filter (Flag.fits verb) with
  | none => .error (.wrong (.unknownOption shown))
  | some flag =>
      match attached with
      | some value => (settings.assign shown value flag).map .done
      | none =>
          if flag.needsValue then .ok (.awaits settings flag)
          else (settings.switch shown flag).map .done

def readArgument (verb : Verb) (settings : Settings) (argument : String) : Except Stop Pending :=
  match shape argument with
  | .long name attached => readLong verb settings name attached
  | .short cluster => readCluster verb settings cluster
  | .plain | .endOfOptions => (settings.place argument).map .done

def readOptions (verb : Verb) (settings : Settings) : List String → Except Stop Settings
  | [] => .ok settings
  | argument :: rest =>
      if shape argument = .endOfOptions then rest.foldlM Settings.place settings
      else do
        match ← readArgument verb settings argument with
        | .done settings => readOptions verb settings rest
        | .awaits settings flag =>
            match rest with
            | [] => .error (.wrong (.missingValue argument))
            | value :: rest =>
                if shape value = .plain then
                  readOptions verb (← settings.assign argument value flag) rest
                else .error (.wrong (.missingValue argument))

def setVerbose (verbose : Bool) (name : String) : Except Stop Bool :=
  if verbose then .error (.wrong (.repeatedOption name)) else .ok true

def readLeadingCluster (verbose : Bool) : List Char → Except Stop Bool
  | [] => .ok verbose
  | 'v' :: rest => do readLeadingCluster (← setVerbose verbose "-v") rest
  | 'V' :: _ => .error (.answered .version)
  | 'h' :: _ => .error (.answered .help)
  | char :: _ => .error (.wrong (.unknownOption (String.ofList ['-', char])))

def readLeadingLong (verbose : Bool) (argument : String) : Except Stop Bool :=
  match argument with
  | "--verbose" => setVerbose verbose argument
  | "--version" => .error (.answered .version)
  | "--help" => .error (.answered .help)
  | _ => .error (.wrong (.unknownOption argument))

/-- Whether a word names a command, the one for help among them. -/
def isCommand (name : String) : Bool :=
  name = "help" || (Verb.ofName? name).isSome

/-- Reads what follows the command for help: nothing, or the name of one command. Every argument is
taken as a name here, also one with a dash in front, and no command has others below it. -/
def readTopic : List String → Except Stop Request
  | [] => .ok .help
  | name :: rest =>
      if isCommand name then
        match rest with
        | [] => .ok .help
        | below :: _ => .error (.wrong (.unknownCommand below))
      else .error (.wrong (.unknownCommand name))

/-- Reads the options in front of the command, its name, and the rest. -/
def readLeading (verbose : Bool) : List String → Except Stop Request
  | [] => .error (.wrong .missingCommand)
  | argument :: rest =>
      match shape argument with
      | .plain =>
          match Verb.ofName? argument with
          | some verb => do
              let settings ← readOptions verb {} rest
              return .run (verbose || settings.verbose) (← settings.job verb)
          | none =>
              if argument = "help" then readTopic rest
              else .error (.wrong (.unknownCommand argument))
      | .endOfOptions => .error (.wrong .missingCommand)
      | .long _ _ => do readLeading (← readLeadingLong verbose argument) rest
      | .short cluster => do readLeading (← readLeadingCluster verbose cluster) rest

def read (arguments : List String) : Except UsageError Request :=
  match readLeading false arguments with
  | .ok request => .ok request
  | .error (.answered request) => .ok request
  | .error (.wrong error) => .error error

end QueryClause.Arguments
