import SpringLint.Check.Basic
import SpringLint.Check.PackageInfo
import SpringLint.Fix.Resolution
import SpringLint.Marker.Store

/-! Analysing a project and keeping its markers. -/

namespace SpringLint

structure ChangeSet where
  added : List String := []
  changed : List String := []
  removed : List String := []
  deriving DecidableEq, Repr

namespace ChangeSet

def isEmpty (changes : ChangeSet) : Bool :=
  changes.added.isEmpty && changes.changed.isEmpty && changes.removed.isEmpty

end ChangeSet

structure Pass where
  analyzed : List String := []
  failures : List (String × Error) := []
  markers : List Marker := []
  isCancelled : Bool := false
  deriving DecidableEq, Repr

namespace Pass

def count (pass : Pass) (severity : Severity) : Nat :=
  (pass.markers.filter fun m => m.severity = severity).length

/-- Whether every resource was analysed. What is reported does not count. -/
def hasPassed (pass : Pass) : Bool :=
  pass.failures.isEmpty

end Pass

structure Session where
  project : Project
  store : MarkerStore := {}
  checks : List Check := Check.all
  checksPackages : Bool := true
  excluded : List Glob := []
  fixers : Fixers := Fixers.standard
  stopAsked : Bool := false

/-- What an operation of a session comes to. The session and the files stay as the operation left
them even when it has no result. -/
structure Outcome (α : Type) where
  session : Session
  files : FileSystem
  result : Except Halt α

namespace Session

/-- The markers that the checks give to a source, unless a check has no answer. -/
def unitMarkers? (session : Session) (files : FileSystem) (unit : SourceUnit) :
    Option (List Marker) :=
  let q : Query := { unit := unit, project := session.project, files := files }
  (Check.runAll? session.checks q).map fun findings =>
    findings.map (Marker.ofFinding unit.resource unit.tree)

inductive Progress where
  | done
  | stopped
  | crashed
  deriving DecidableEq, Repr

/-- Analyses sources in turn. Before each, and not in between, a wish to stop is looked for and used
up; `asked n` says whether somebody asks between the look before the last one and look number `n`.
-/
def analyzeUnits (session : Session) (files : FileSystem) (asked : Nat → Bool) (look : Nat)
    (pass : Pass) : List String → Session × Pass × Progress
  | [] => ({ session with stopAsked := session.stopAsked || asked look }, pass, .done)
  | resource :: rest =>
    if session.stopAsked || asked look then
      ({ session with stopAsked := false }, { pass with isCancelled := true }, .stopped)
    else
      match session.project.unit? resource with
      | none => session.analyzeUnits files asked (look + 1) pass rest
      | some unit =>
        match session.unitMarkers? files unit with
        | none => (session, pass, .crashed)
        | some markers =>
          { session with store := session.store.replace resource markers }.analyzeUnits files asked
            (look + 1)
            { pass with
              analyzed := pass.analyzed ++ [resource]
              markers := pass.markers ++ markers }
            rest

def analyzeFolders (session : Session) (files : FileSystem) (pass : Pass) :
    List String → Session × Pass
  | [] => (session, pass)
  | folder :: rest =>
    let markers := PackageInfo.check session.project files folder
    { session with store := session.store.replace folder markers }.analyzeFolders files
      { pass with markers := pass.markers ++ markers } rest

def flush (session : Session) (files : FileSystem) (result : α) : Outcome α :=
  match session.store.flush files with
  | (files, .ok store) =>
    { session := { session with store := store }, files := files, result := .ok result }
  | (files, .error error) =>
    { session := session, files := files, result := .error (.error error) }

def analyze (session : Session) (files : FileSystem) (asked : Nat → Bool)
    (resources folders : List String) (pass : Pass) : Outcome Pass :=
  match session.analyzeUnits files asked 0 pass resources with
  | (session, _, .crashed) => { session := session, files := files, result := .error .crash }
  | (session, pass, .stopped) => session.flush files pass
  | (session, pass, .done) =>
    let (session, pass) := session.analyzeFolders files pass folders
    session.flush files pass

/-- The folders whose packages are checked on account of resources. -/
def packageFolders (session : Session) (resources : List String) : List String :=
  if session.checksPackages then PackageInfo.folders session.project.layout resources else []

/-- Loads sources and links the project anew. Those that could not be loaded lose their markers. -/
def reload (session : Session) (grammar : Grammar) (files : FileSystem)
    (resources : List String) : Session × List (String × Error) :=
  let (project, failures) := session.project.load grammar files resources
  ({ session with
      project := project.relink
      store := failures.foldl (fun store (resource, _) => store.delete resource) session.store },
    failures)

/-- Analyses every source of the project. Markers of what is gone are deleted. -/
def analyzeAllWith (session : Session) (grammar : Grammar) (files : FileSystem)
    (asked : Nat → Bool) : Outcome Pass :=
  let resources := session.project.discover files session.excluded
  let gone := session.project.units.names.filter fun r => !resources.contains r
  let project := gone.foldl Project.remove session.project
  let (session, failures) := { session with project := project }.reload grammar files resources
  let folders := session.packageFolders resources
  let stale := session.store.table.entries.filterMap fun (resource, markers) =>
    if markers.isEmpty || resources.contains resource || folders.contains resource then none
    else some resource
  let session := { session with store := stale.foldl MarkerStore.delete session.store }
  let loaded := resources.filter fun r => (session.project.unit? r).isSome
  session.analyze files asked loaded folders { failures := failures }

def analyzeChangesWith (session : Session) (grammar : Grammar) (files : FileSystem)
    (asked : Nat → Bool) (changes : ChangeSet) : Outcome Pass :=
  let session :=
    { session with
      project := changes.removed.foldl Project.remove session.project
      store := changes.removed.foldl MarkerStore.delete session.store }
  let loadable := (changes.added ++ changes.changed).filter fun r =>
    Text.endsWith ".java" r && !session.excluded.any (·.accepts r)
  let (session, failures) := session.reload grammar files loadable
  let folders := session.packageFolders (loadable ++ changes.removed)
  let loaded := loadable.filter fun r => (session.project.unit? r).isSome
  session.analyze files asked loaded folders { failures := failures }

def analyzeAll (session : Session) (grammar : Grammar) (files : FileSystem) : Outcome Pass :=
  session.analyzeAllWith grammar files fun _ => false

def analyzeChanges (session : Session) (grammar : Grammar) (files : FileSystem)
    (changes : ChangeSet) : Outcome Pass :=
  session.analyzeChangesWith grammar files (fun _ => false) changes

def clean (session : Session) (files : FileSystem) : Outcome Unit :=
  { session with store := session.store.clear }.flush files ()

def previewFix (session : Session) (grammar : Grammar) (files : FileSystem) (fixer : Fixer)
    (m : Marker) : Except Halt (Option Repair) :=
  fixer.preview grammar session.project files m

def applyFix (session : Session) (grammar : Grammar) (files : FileSystem) (fixer : Fixer)
    (m : Marker) : Outcome (Option Repair) :=
  match fixer.apply grammar session.project files m with
  | (files, .error halt) => { session := session, files := files, result := .error halt }
  | (files, .ok none) => { session := session, files := files, result := .ok none }
  | (files, .ok (some r)) =>
    let after := session.analyzeChanges grammar files { changed := [r.resource] }
    { session := after.session
      files := after.files
      result := after.result.map fun _ => some r }

end Session

end SpringLint
