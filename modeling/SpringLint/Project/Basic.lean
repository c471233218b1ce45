import SpringLint.Error
import SpringLint.Project.Layout
import SpringLint.Project.Unit
import SpringLint.Text.Glob

/-! Projects: sources, and the types that they share. -/

namespace SpringLint

structure Project where
  layout : Layout
  units : Table SourceUnit := {}
  index : Index := .catalogue

namespace Project

def isSkipped (folder : String) : Bool :=
  Text.startsWith "." folder || ["node_modules", "bin", "out"].contains folder

/-- The sources below the project folder that no pattern excludes, in ascending order. -/
def discover (project : Project) (files : FileSystem) (excluded : List Glob) : List String :=
  (files.filesBelow project.layout.root isSkipped).filter fun resource =>
    let name := if resource == "" then project.layout.root else resource
    ((Path.fileName? name).bind Path.extension?) == some "java" &&
      !excluded.any (·.accepts resource)

def parseUnit (project : Project) (grammar : Grammar) (resource text : String) :
    Except Error SourceUnit :=
  match Source.parse? grammar text with
  | some source => .ok (.ofSource resource source)
  | none => .error (.parse (project.layout.pathOf resource))

def readUnit (project : Project) (grammar : Grammar) (files : FileSystem) (resource : String) :
    Except Error SourceUnit :=
  let path := project.layout.pathOf resource
  match files.read path with
  | .error fault => .error (.read path fault)
  | .ok text => project.parseUnit grammar resource text

def insertUnit (project : Project) (unit : SourceUnit) : Project :=
  { project with units := project.units.insert unit.resource unit }

def remove (project : Project) (resource : String) : Project :=
  { project with units := project.units.erase resource }

def unit? (project : Project) (resource : String) : Option SourceUnit :=
  project.units.get? resource

/-- Takes over what has been read: a source that could not be loaded is dropped from the project and
listed. -/
def takeOver (project : Project) :
    List (String × Except Error SourceUnit) → Project × List (String × Error)
  | [] => (project, [])
  | (_, .ok unit) :: rest => (project.insertUnit unit).takeOver rest
  | (resource, .error error) :: rest =>
    let (project, failures) := (project.remove resource).takeOver rest
    (project, (resource, error) :: failures)

/-- Reads sources in place of those known under the same resource, and lists those that could not be
loaded. -/
def load (project : Project) (grammar : Grammar) (files : FileSystem) (resources : List String) :
    Project × List (String × Error) :=
  project.takeOver (resources.map fun resource =>
    (resource, project.readUnit grammar files resource))

def insertSource (project : Project) (grammar : Grammar) (resource text : String) :
    Except Error Project := do
  let unit ← project.parseUnit grammar resource text
  return project.insertUnit unit

/-- The catalogue and the names of the types that the sources declare. -/
def nameIndex (units : List SourceUnit) : Index :=
  (units.flatMap SourceUnit.names).foldl (fun index d => index.declare d.name d.kind) .catalogue

def relink (project : Project) : Project :=
  let names := nameIndex project.units.values
  let declared := project.units.entries.map fun (resource, unit) =>
    (resource, unit, unit.declare names)
  let index := names.insertAll (declared.flatMap fun (_, _, types) => types)
  { project with
    index := index
    units := { entries := declared.map fun (resource, unit, types) =>
      (resource, unit.link types index) } }

/-- Parses a text as a copy of a source, with the types that the project knows. The project stays as
it is. -/
def detached (project : Project) (grammar : Grammar) (resource text : String) :
    Except Error SourceUnit := do
  let unit ← project.parseUnit grammar resource text
  return unit.link (unit.declare project.index) project.index

end Project

end SpringLint
