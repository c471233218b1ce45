import SpringLint.Text.Split

/-! Command lines: what they ask for, and why one is not understood. -/

namespace SpringLint

inductive Usage where
  | displayHelp
  | displayVersion
  | displayHelpOnMissing
  | missingSubcommand
  | invalidSubcommand
  | unknownArgument
  | invalidValue
  | argumentConflict
  | tooManyValues
  deriving DecidableEq, Repr

namespace Usage

def name : Usage → String
  | .displayHelp => "DisplayHelp"
  | .displayVersion => "DisplayVersion"
  | .displayHelpOnMissing => "DisplayHelpOnMissingArgumentOrSubcommand"
  | .missingSubcommand => "MissingSubcommand"
  | .invalidSubcommand => "InvalidSubcommand"
  | .unknownArgument => "UnknownArgument"
  | .invalidValue => "InvalidValue"
  | .argumentConflict => "ArgumentConflict"
  | .tooManyValues => "TooManyValues"

def code : Usage → Nat
  | .displayHelp | .displayVersion => 0
  | _ => 2

end Usage

structure ProjectArgs where
  path : String
  config : Option String
  deriving DecidableEq, Repr

inductive Command where
  | check (project : ProjectArgs) (format : String) (failOnErrors : Bool)
  | fix (project : ProjectArgs) (dryRun : Bool) (problem : Option String)
  | markers (project : ProjectArgs) (format : String)
  | clean (project : ProjectArgs)
  | problems
  deriving DecidableEq, Repr

namespace Command

structure Flag where
  name : String
  letter : Option Char := none
  takesValue : Bool := false
  isPath : Bool := false
  deriving DecidableEq, Repr

structure Form where
  takesPath : Bool := true
  flags : List Flag := []
  deriving DecidableEq, Repr

def configFlag : Flag :=
  { name := "config", letter := some 'c', takesValue := true, isPath := true }

def formatFlag : Flag := { name := "format", letter := some 'f', takesValue := true }

def problemFlag : Flag := { name := "problem", letter := some 'p', takesValue := true }

def form? (name : String) : Option Form :=
  match name with
  | "check" | "lint" =>
    some { flags := [configFlag, formatFlag, { name := "fail-on-errors" }] }
  | "fix" => some { flags := [configFlag, { name := "dry-run" }, problemFlag] }
  | "markers" => some { flags := [configFlag, formatFlag] }
  | "clean" => some { flags := [configFlag] }
  | "problems" => some { takesPath := false }
  | _ => none

/-- The place of the project, as if it were the value of an option. -/
def pathFlag : Flag := { name := "path", takesValue := true, isPath := true }

structure Reading where
  given : List (String × String) := []
  /-- The last option or path, whose value is looked at when the next argument has been understood.
  -/
  pending : Option (Flag × Option String) := none
  hasPath : Bool := false
  deriving DecidableEq, Repr

namespace Reading

/-- Takes an option with its value. None may come twice. -/
def take (r : Reading) (flag : Flag) (value : String) : Except Usage Reading :=
  if r.given.any fun entry => entry.1 == flag.name then .error .argumentConflict
  else if flag.isPath && value == "" then .error .invalidValue
  else .ok { r with given := r.given ++ [(flag.name, value)] }

def settle (r : Reading) : Except Usage Reading :=
  match r.pending with
  | none => .ok r
  | some (_, none) => .error .invalidValue
  | some (flag, some value) => { r with pending := none }.take flag value

def takeNow (r : Reading) (flag : Flag) (value : String) : Except Usage Reading := do
  (← r.settle).take flag value

def await (r : Reading) (flag : Flag) : Except Usage Reading := do
  return { ← r.settle with pending := some (flag, none) }

def help (r : Reading) : Except Usage Reading := do
  let _ ← r.settle
  .error .displayHelp

def positional (form : Form) (r : Reading) (value : String) : Except Usage Reading :=
  if form.takesPath && !r.hasPath then do
    return { ← r.settle with pending := some (pathFlag, some value), hasPath := true }
  else .error .unknownArgument

def long (form : Form) (r : Reading) (text : String) : Except Usage Reading :=
  let (name, value) := match Text.cut? '=' text with
    | some (name, value) => (name, some value)
    | none => (text, none)
  match form.flags.find? fun flag => flag.name == name with
  | some flag =>
    match flag.takesValue, value with
    | true, some value => r.takeNow flag value
    | true, none => r.await flag
    | false, some _ => .error .tooManyValues
    | false, none => r.takeNow flag ""
  | none =>
    if name == "help" || name == "verbose" then
      if value.isSome then .error .tooManyValues
      else if name == "help" then r.help
      else r.settle
    else .error .unknownArgument

/-- Takes the letters after one dash. The letters after an option that has a value are its value. -/
def letters (form : Form) (r : Reading) : List Char → Except Usage Reading
  | [] => .ok r
  | c :: cs =>
    match form.flags.find? fun flag => flag.letter == some c with
    | some flag =>
      match cs with
      | [] => r.await flag
      | '=' :: value => r.takeNow flag (String.ofList value)
      | value => r.takeNow flag (String.ofList value)
    | none =>
      if c == 'h' then r.help
      else if c == 'v' then do (← r.settle).letters form cs
      else .error .unknownArgument

/-- Reads the arguments of a command. After two dashes alone there are no more options. -/
def readAll (form : Form) (onlyPaths : Bool) (r : Reading) : List String → Except Usage Reading
  | [] => r.settle
  | arg :: rest =>
    if onlyPaths then do (← r.positional form arg).readAll form true rest
    else
      match arg.toList with
      | ['-', '-'] => r.readAll form true rest
      | '-' :: '-' :: text => do (← r.long form (String.ofList text)).readAll form false rest
      | '-' :: c :: cs => do (← r.letters form (c :: cs)).readAll form false rest
      | _ =>
        match r.pending with
        | some (flag, none) => { r with pending := some (flag, some arg) }.readAll form false rest
        | _ => do (← r.positional form arg).readAll form false rest

def value? (r : Reading) (name : String) : Option String :=
  r.given.lookup name

def project (r : Reading) : ProjectArgs :=
  { path := (r.value? "path").getD ".", config := r.value? "config" }

def format (r : Reading) : String :=
  (r.value? "format").getD "pretty"

def command (r : Reading) (name : String) : Command :=
  match name with
  | "fix" => .fix r.project (r.value? "dry-run").isSome (r.value? "problem")
  | "markers" => .markers r.project r.format
  | "clean" => .clean r.project
  | "problems" => .problems
  | _ => .check r.project r.format (r.value? "fail-on-errors").isSome

end Reading

/-- What is asked for by the arguments after the word `help`: the help of the command that they
name. -/
def helpFor : List String → Usage
  | [] => .displayHelp
  | [name] => if (form? name).isSome || name == "help" then .displayHelp else .invalidSubcommand
  | _ => .invalidSubcommand

def outerLetters : List Char → Except Usage Unit
  | [] => .ok ()
  | c :: cs =>
    if c == 'v' then outerLetters cs
    else if c == 'h' then .error .displayHelp
    else if c == 'V' then .error .displayVersion
    else .error .unknownArgument

def outerLong (text : String) : Except Usage Unit :=
  let (name, hasValue) := match Text.cut? '=' text with
    | some (name, _) => (name, true)
    | none => (text, false)
  if name == "verbose" || name == "help" || name == "version" then
    if hasValue then .error .tooManyValues
    else if name == "help" then .error .displayHelp
    else if name == "version" then .error .displayVersion
    else .ok ()
  else .error .unknownArgument

/-- Reads a command line; `anyFlag` says whether an option has come before, and `noFlags` whether
two dashes alone have. -/
def parseFrom (anyFlag noFlags : Bool) : List String → Except Usage Command
  | [] => .error (if anyFlag then .missingSubcommand else .displayHelpOnMissing)
  | arg :: rest =>
    if noFlags then
      .error (if (form? arg).isSome || arg == "help" then .unknownArgument else .invalidSubcommand)
    else if arg == "help" then .error (helpFor rest)
    else
      match form? arg with
      | some form => do
        let reading ← ({} : Reading).readAll form false rest
        return reading.command arg
      | none =>
        match arg.toList with
        | ['-', '-'] => parseFrom anyFlag true rest
        | '-' :: '-' :: text => do
          outerLong (String.ofList text)
          parseFrom true false rest
        | '-' :: c :: cs => do
          outerLetters (c :: cs)
          parseFrom true false rest
        | _ => .error .invalidSubcommand

def logLevel (verbosity : Nat) : String :=
  match verbosity with
  | 0 => "warn"
  | 1 => "info"
  | 2 => "debug"
  | _ => "trace"

def parse (args : List String) : Except Usage Command :=
  parseFrom false false args

end Command

end SpringLint
