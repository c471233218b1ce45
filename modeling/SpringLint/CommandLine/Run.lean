import SpringLint.CommandLine.Arguments
import SpringLint.Config
import SpringLint.Report.Pretty

/-! Carrying out command lines. -/

namespace SpringLint

structure Setting where
  grammar : Grammar
  userFolder : String
  coloured : Bool := false

inductive Ending where
  | exit (code : Nat)
  | error (error : Error)
  | noAccess (path : String) (fault : FileFault)
  | crash
  deriving DecidableEq, Repr

namespace Ending

def ofHalt : Halt → Ending
  | .error cause => .error cause
  | .crash => .crash

def noAccessMessage (path : String) (fault : FileFault) : String :=
  "cannot access path " ++ path ++ ": " ++ fault.message

end Ending

structure Console where
  out : String := ""
  err : String := ""
  deriving DecidableEq, Repr

namespace Console

def say (console : Console) (text : String) : Console :=
  { console with out := console.out ++ text }

def warn (console : Console) (text : String) : Console :=
  { console with err := console.err ++ text }

end Console

structure CommandRun where
  files : FileSystem
  console : Console := {}
  ending : Ending

namespace CommandRun

def exit (files : FileSystem) (console : Console) (code : Nat) : CommandRun :=
  { files := files, console := console, ending := .exit code }

end CommandRun

namespace Command

def formats : List String := ["pretty", "json", "sarif"]

def invalidFormat (format : String) : String :=
  "Error: invalid format " ++ Text.quoted format ++ ", must be 'pretty', 'json', or 'sarif'\n"

def locate (setting : Setting) (files : FileSystem) (args : ProjectArgs) :
    Except Ending (String × Config) := do
  let root ← (files.canonical args.path).mapError (.noAccess args.path)
  let config ← (Config.load files setting.userFolder root args.config).mapError .error
  return (root, config)

def openSession (files : FileSystem) (root : String) (config : Config) : Except Error Session := do
  let store ← MarkerStore.openAt files (config.markersFile root)
  let excluded ← config.excludedGlobs
  return {
    project := { layout := config.layout root }
    store := store
    checks := config.enabledChecks
    checksPackages := config.checksPackages
    excluded := excluded }

def openProject (setting : Setting) (files : FileSystem) (args : ProjectArgs) :
    Except Ending (String × Session) := do
  let (root, config) ← locate setting files args
  let session ← (openSession files root config).mapError .error
  return (root, session)

/-- The exit code of a pass: what could not be analysed always fails it, errors on request. -/
def exitCode (pass : Pass) (failOnErrors : Bool) : Nat :=
  if !pass.hasPassed || (failOnErrors && 0 < pass.count .error) then 1 else 0

def passText (setting : Setting) (format root : String) (pass : Pass) : String :=
  match format with
  | "json" => (Report.json root pass).pretty 0 ++ "\n"
  | "sarif" => (Report.sarif pass.markers).pretty 0 ++ "\n"
  | _ => Report.pretty setting.coloured root pass

def runCheck (setting : Setting) (files : FileSystem) (args : ProjectArgs) (format : String)
    (failOnErrors : Bool) : CommandRun :=
  if formats.contains format then
    match openProject setting files args with
    | .error ending => { files := files, ending := ending }
    | .ok (root, session) =>
      let outcome := session.analyzeAll setting.grammar files
      match outcome.result with
      | .error halt => { files := outcome.files, ending := .ofHalt halt }
      | .ok pass =>
        .exit outcome.files (({} : Console).say (passText setting format root pass))
          (exitCode pass failOnErrors)
  else .exit files (({} : Console).warn (invalidFormat format)) 2

def storeText (setting : Setting) (format path : String) (markers : List Marker) : String :=
  match format with
  | "json" => Marker.writeAll markers ++ "\n"
  | "sarif" => (Report.sarif markers).pretty 0 ++ "\n"
  | _ =>
    if markers.isEmpty then "No markers recorded in " ++ path ++ "\n"
    else "\n" ++ Report.markersText setting.coloured markers

def runMarkers (setting : Setting) (files : FileSystem) (args : ProjectArgs) (format : String) :
    CommandRun :=
  if formats.contains format then
    match locate setting files args with
    | .error ending => { files := files, ending := ending }
    | .ok (root, config) =>
      let path := config.markersFile root
      match MarkerStore.openAt files path with
      | .error error => { files := files, ending := .error error }
      | .ok store => .exit files (({} : Console).say (storeText setting format path store.all)) 0
  else .exit files (({} : Console).warn (invalidFormat format)) 2

def runClean (setting : Setting) (files : FileSystem) (args : ProjectArgs) : CommandRun :=
  match openProject setting files args with
  | .error ending => { files := files, ending := ending }
  | .ok (_, session) =>
    let outcome := session.clean files
    match outcome.result with
    | .error halt => { files := outcome.files, ending := .ofHalt halt }
    | .ok () => .exit outcome.files (({} : Console).say "Markers deleted\n") 0

structure FixRun where
  session : Session
  files : FileSystem
  console : Console := {}
  attempted : List String := []
  shown : List String := []
  count : Nat := 0

namespace FixRun

/-- The first marker that has not been tried and has a fix, and its first fix. Only markers of the
problem `only` count if it is given. -/
def next? (run : FixRun) (only : Option Problem) : Option (Marker × Fixer) :=
  run.session.store.all.findSome? fun m => do
    guard (!run.attempted.contains m.key)
    guard (only.isNone || m.problem? == only)
    let fixers ← (run.session.fixers.forMarker m).toOption
    return (m, ← fixers.head?)

def warnAbout (run : FixRun) (m : Marker) (error : Error) : FixRun :=
  { run with
    console := run.console.warn ("Warning: " ++ m.resource ++ ": " ++ error.message ++ "\n") }

/-- Shows the change that a fix would make, unless the same text has been shown. There is no result
after a crash. -/
def show? (setting : Setting) (run : FixRun) (m : Marker) (fixer : Fixer) : Option FixRun :=
  match run.session.previewFix setting.grammar run.files fixer m with
  | .error .crash => none
  | .error (.error error) => some (run.warnAbout m error)
  | .ok none => some run
  | .ok (some r) =>
    if run.shown.contains r.fixed then some run
    else some { run with
      console := run.console.say r.diff
      shown := r.fixed :: run.shown
      count := run.count + 1 }

/-- Makes the change of a fix. The second part says whether the run can go on. -/
def make (setting : Setting) (run : FixRun) (m : Marker) (fixer : Fixer) : FixRun × Bool :=
  let outcome := run.session.applyFix setting.grammar run.files fixer m
  let run := { run with session := outcome.session, files := outcome.files }
  match outcome.result with
  | .error .crash => (run, false)
  | .error (.error error) => (run.warnAbout m error, true)
  | .ok none => (run, true)
  | .ok (some r) =>
    ({ run with
        console := run.console.say (fixer.label ++ ": " ++ r.resource ++ "\n")
        count := run.count + 1 }, true)

def attempt (setting : Setting) (dryRun : Bool) (run : FixRun) (m : Marker) (fixer : Fixer) :
    FixRun × Bool :=
  let run := { run with attempted := m.key :: run.attempted }
  if dryRun then
    match run.show? setting m fixer with
    | some run => (run, true)
    | none => (run, false)
  else run.make setting m fixer

/-- Tries markers until none is left; the second part says whether nothing crashed. At most `fuel`
markers are tried. -/
def loop (setting : Setting) (dryRun : Bool) (only : Option Problem) :
    Nat → FixRun → FixRun × Bool
  | 0, run => (run, true)
  | fuel + 1, run =>
    match run.next? only with
    | none => (run, true)
    | some (m, fixer) =>
      match run.attempt setting dryRun m fixer with
      | (run, true) => loop setting dryRun only fuel run
      | (run, false) => (run, false)

/-- A bound for the number of markers that are tried. In a dry run the markers stay the same. A fix
takes away at least one place to fix, and gives the others new keys at most. -/
def bound (dryRun : Bool) (run : FixRun) : Nat :=
  let markers := run.session.store.all.length
  if dryRun then markers else (markers + 1) * (run.files.byteCount + markers + 1)

def summary (dryRun : Bool) (root : String) (run : FixRun) : String :=
  if run.count == 0 then "Nothing to fix in " ++ root ++ "\n"
  else if dryRun then toString run.count ++ " fix(es) available\n"
  else "Applied " ++ toString run.count ++ " fix(es)\n"

end FixRun

def fixProject (setting : Setting) (files : FileSystem) (args : ProjectArgs) (dryRun : Bool)
    (only : Option Problem) : CommandRun :=
  match openProject setting files args with
  | .error ending => { files := files, ending := ending }
  | .ok (root, session) =>
    let outcome := session.analyzeAll setting.grammar files
    match outcome.result with
    | .error halt => { files := outcome.files, ending := .ofHalt halt }
    | .ok _ =>
      let start : FixRun := { session := outcome.session, files := outcome.files }
      match FixRun.loop setting dryRun only (start.bound dryRun) start with
      | (run, true) => .exit run.files (run.console.say (run.summary dryRun root)) 0
      | (run, false) => { files := run.files, console := run.console, ending := .crash }

def runFix (setting : Setting) (files : FileSystem) (args : ProjectArgs) (dryRun : Bool)
    (problem : Option String) : CommandRun :=
  match problem with
  | none => fixProject setting files args dryRun none
  | some name =>
    match Problem.all.find? fun p => p.name == name with
    | some only => fixProject setting files args dryRun (some only)
    | none =>
      .exit files
        (({} : Console).warn ("Error: unknown problem " ++ Text.quoted name ++ "\n"
          ++ "Run 'bootcheck problems' to see the catalogue\n")) 2

def tableLine (id problem check fix : String) : String :=
  Report.padded 4 id ++ " " ++ Report.padded 52 problem ++ " " ++ Report.padded 36 check ++ " "
    ++ fix ++ "\n"

def problemsText : String :=
  tableLine "id" "problem" "check" "fix"
    ++ String.join (Problem.all.map fun problem =>
      let check := Check.all.find? fun check => check.problems.contains problem
      let fix := (Fixers.standard.forProblem problem).head?
      tableLine (toString problem.id) problem.name ((check.map Check.name).getD "package-info")
        ((fix.map (·.label)).getD "-"))

def run (setting : Setting) (files : FileSystem) : Command → CommandRun
  | .check args format failOnErrors => runCheck setting files args format failOnErrors
  | .fix args dryRun problem => runFix setting files args dryRun problem
  | .markers args format => runMarkers setting files args format
  | .clean args => runClean setting files args
  | .problems => .exit files (({} : Console).say problemsText) 0

end Command

end SpringLint
