import SpringLint.Check.Lambda
import SpringLint.Fix.ConstructorInjection
import SpringLint.Marker.Basic
import SpringLint.Syntax.Printer
import SpringLint.Text.Diff

/-! Fixing what markers report. -/

namespace SpringLint

structure Fixer where
  name : String
  label : String
  problem : Problem
  plan? : Query → Nat → Option (List Edit)

def ConstructorInjection.fixer : Fixer where
  name := "constructor-injection"
  label := "Use constructor injection"
  problem := .configurationClassConstructorInjection
  plan? := plan?

namespace LambdaParentheses

/-- The edit for the lambda expression at a node or directly above it. -/
def plan? (q : Query) (marked : Nat) : Option (List Edit) := do
  let t := q.tree
  let lambda ←
    if t.kind marked = .lambdaExpression then some marked
    else (t.parent marked).filter fun p => t.kind p = .lambdaExpression
  let _ ← Check.bareParameter? t lambda
  return [.parenthesize lambda]

def fixer : Fixer where
  name := "lambda-parentheses"
  label := "Add parentheses"
  problem := .missingParenthesesAroundLambdaParameter
  plan? := plan?

end LambdaParentheses

abbrev Fixers := List Fixer

namespace Fixers

def standard : Fixers := [ConstructorInjection.fixer, LambdaParentheses.fixer]

def forProblem (fixers : Fixers) (problem : Problem) : List Fixer :=
  fixers.filter fun fixer => fixer.problem = problem

def forMarker (fixers : Fixers) (m : Marker) : Except Error (List Fixer) :=
  match m.problem? with
  | some problem => .ok (forProblem fixers problem)
  | none => .error (.unknownProblem m.problemId)

end Fixers

structure Repair where
  resource : String
  path : String
  before : String
  fixed : String
  deriving DecidableEq, Repr

namespace Repair

def diffOf (resource before after : String) : String :=
  Diff.unified ("a/" ++ resource) ("b/" ++ resource) before after

def diff (r : Repair) : String :=
  diffOf r.resource r.before r.fixed

end Repair

/-- What goes wrong outside while a file is fixed. Without a mishap a step fails only where the files
themselves make it fail. -/
structure Mishaps where
  read : Option FileFault := none
  /-- A fault of the first write, and the part of the text that it leaves in the file, if the file
  has been opened by then. -/
  write : Option (FileFault × Option ByteArray) := none
  rename : Option FileFault := none
  unlink : Bool := false

namespace Mishaps

def tryRead (mishaps : Mishaps) (files : FileSystem) (path : String) : Except FileFault String :=
  match mishaps.read with
  | some fault => .error fault
  | none => files.read path

def tryWrite (mishaps : Mishaps) (files : FileSystem) (path : String) (content : ByteArray) :
    FileSystem × Except FileFault Unit :=
  match mishaps.write with
  | some (fault, none) => (files, .error fault)
  | some (fault, some part) =>
    match files.write path part with
    | .error own => (files, .error own)
    | .ok later => (later, .error fault)
  | none =>
    match files.write path content with
    | .error fault => (files, .error fault)
    | .ok later => (later, .ok ())

def tryRename (mishaps : Mishaps) (files : FileSystem) (source target : String) :
    Except FileFault FileSystem :=
  match mishaps.rename with
  | some fault => .error fault
  | none => files.rename source target

def tryUnlink (mishaps : Mishaps) (files : FileSystem) (path : String) : FileSystem :=
  if mishaps.unlink then files else files.unlink path

end Mishaps

namespace Fixer

def editedText (t : Tree) (edits : List Edit) : Except Halt String :=
  match t.apply edits with
  | (_, .error reason) => .error (.error (.invalidEdit reason))
  | (edited, .ok ()) =>
    match edited.print with
    | some text => .ok text
    | none => .error .crash

/-- The fixed text of a source, if the fix applies to the bytes from `start` to `stop`. -/
def fixedText? (fixer : Fixer) (q : Query) (path : String) (start stop : Nat) :
    Except Halt (Option String) :=
  match q.tree.coveringNode start stop with
  | none => .error (.error (.staleMarker path))
  | some marked =>
    match fixer.plan? q marked with
    | none => .ok none
    | some edits => (editedText q.tree edits).map some

/-- The change that a fix makes to the text of the marked file. There is none when the fix does not
apply. -/
def repairText (fixer : Fixer) (grammar : Grammar) (project : Project) (files : FileSystem)
    (resource before : String) (start stop : Nat) : Except Halt (Option Repair) := do
  let path := project.layout.pathOf resource
  if before.utf8ByteSize < stop || stop < start then throw (.error (.staleMarker path))
  match project.detached grammar resource before with
  | .error error => throw (.error error)
  | .ok unit =>
    let q : Query := { unit := unit, project := project, files := files }
    match ← fixer.fixedText? q path start stop with
    | none => return none
    | some fixed =>
      if fixed == before then return none
      return some { resource := resource, path := path, before := before, fixed := fixed }

/-- The change that a fix makes for a marker. The marked file is read again, and nothing is
written. -/
def previewUnder (mishaps : Mishaps) (fixer : Fixer) (grammar : Grammar) (project : Project)
    (files : FileSystem) (m : Marker) : Except Halt (Option Repair) := do
  let some problem := m.problem? | throw (.error (.unknownProblem m.problemId))
  if fixer.problem ≠ problem then throw (.error (.fixerMismatch fixer.name problem))
  match m.start, m.stop with
  | some start, some stop =>
    let path := project.layout.pathOf m.resource
    match mishaps.tryRead files path with
    | .error fault => throw (.error (.read path fault))
    | .ok before => fixer.repairText grammar project files m.resource before start stop
  | _, _ => return none

/-- The file that a fixed text is written to before it takes the place of the source. -/
def stagingPath (path : String) : String :=
  Path.withExtension path "java.bootcheck-fix"

def commitUnder (mishaps : Mishaps) (files : FileSystem) (r : Repair) :
    FileSystem × Except Error Unit :=
  let staging := stagingPath r.path
  match mishaps.tryWrite files staging r.fixed.toUTF8 with
  | (files, .error fault) => (files, .error (.write staging fault))
  | (staged, .ok ()) =>
    match mishaps.tryRename staged staging r.path with
    | .error fault => (mishaps.tryUnlink staged staging, .error (.write r.path fault))
    | .ok done => (done, .ok ())

def applyUnder (mishaps : Mishaps) (fixer : Fixer) (grammar : Grammar) (project : Project)
    (files : FileSystem) (m : Marker) : FileSystem × Except Halt (Option Repair) :=
  match fixer.previewUnder mishaps grammar project files m with
  | .error halt => (files, .error halt)
  | .ok none => (files, .ok none)
  | .ok (some r) =>
    match commitUnder mishaps files r with
    | (files, .error error) => (files, .error (.error error))
    | (files, .ok ()) => (files, .ok (some r))

def preview (fixer : Fixer) (grammar : Grammar) (project : Project) (files : FileSystem)
    (m : Marker) : Except Halt (Option Repair) :=
  fixer.previewUnder {} grammar project files m

def apply (fixer : Fixer) (grammar : Grammar) (project : Project) (files : FileSystem)
    (m : Marker) : FileSystem × Except Halt (Option Repair) :=
  fixer.applyUnder {} grammar project files m

end Fixer

end SpringLint
