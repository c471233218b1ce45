import SpringLint.Check.Basic
import SpringLint.Marker.Store
import SpringLint.Yaml

/-! Settings of a project. -/

namespace SpringLint

structure Config where
  /-- Folders of a module that may hold a factories manifest. None stands for the usual ones. -/
  sourceRoots : List String := []
  /-- Folders of a module that hold generated sources. None stands for the usual ones. -/
  generatedRoots : List String := []
  disabledChecks : List String := []
  excludedPaths : List String := []
  markersPath : Option String := none
  packageInfo : Option Bool := none
  deriving DecidableEq, Repr

namespace Yaml

def scalarText? : Yaml → Option String
  | .scalar _ text => some text
  | _ => none

def texts? : Yaml → Option (List String)
  | .sequence items => items.mapM scalarText?
  | .scalar true "" => some []
  | _ => none

def isNull : Yaml → Bool
  | .scalar true text => ["", "~", "null", "Null", "NULL"].contains text
  | _ => false

def optional? (read : Yaml → Option α) (value : Yaml) : Option (Option α) :=
  if value.isNull then some none else (read value).map some

def bool? : Yaml → Option Bool
  | .scalar true text =>
    if ["true", "True", "TRUE"].contains text then some true
    else if ["false", "False", "FALSE"].contains text then some false
    else none
  | _ => none

end Yaml

namespace Config

/-- Takes account of a setting. There is no result when there is no such setting or its value does
not fit. -/
def set? (config : Config) (name : String) (value : Yaml) : Option Config :=
  match name with
  | "source_roots" => value.texts?.map fun texts => { config with sourceRoots := texts }
  | "generated_roots" => value.texts?.map fun texts => { config with generatedRoots := texts }
  | "disabled_checks" => value.texts?.map fun texts => { config with disabledChecks := texts }
  | "excluded_paths" => value.texts?.map fun texts => { config with excludedPaths := texts }
  | "markers_path" =>
    (value.optional? Yaml.scalarText?).map fun path => { config with markersPath := path }
  | "missing_package_info" =>
    (value.optional? Yaml.bool?).map fun flag => { config with packageInfo := flag }
  | _ => none

/-- Takes account of settings in turn; no name may come twice. -/
def setAll? (config : Config) (seen : List String) : List (Yaml × Yaml) → Option Config
  | [] => some config
  | (key, value) :: rest => do
    let name ← key.scalarText?
    guard (!seen.contains name)
    (← config.set? name value).setAll? (name :: seen) rest

def ofYaml? : Yaml → Option Config
  | .mapping entries => ({} : Config).setAll? [] entries
  | .scalar true "" => some {}
  | _ => none

/-- Reads settings. A blank text leaves all of them unset. -/
def parse? (text : String) : Option Config :=
  if Text.trim text == "" then some {} else (Yaml.parse? text).bind ofYaml?

/-- The patterns of excluded resources, or the first that is malformed. -/
def excludedGlobs (config : Config) : Except Error (List Glob) :=
  config.excludedPaths.mapM fun pattern =>
    match Glob.parse? pattern with
    | some glob => .ok glob
    | none => .error (.config ("invalid excluded_paths pattern " ++ Text.quoted pattern))

def validate (config : Config) : Except Error Unit :=
  match config.disabledChecks.find? fun name => (Check.parse? name).isNone with
  | some name => .error (.config ("unknown check " ++ Text.quoted name))
  | none => config.excludedGlobs.map fun _ => ()

def layout (config : Config) (root : String) : Layout :=
  let usual : Layout := { root := root }
  { usual with
    sourceRoots := if config.sourceRoots.isEmpty then usual.sourceRoots else config.sourceRoots
    generatedRoots :=
      if config.generatedRoots.isEmpty then usual.generatedRoots else config.generatedRoots }

def enabledChecks (config : Config) : List Check :=
  Check.all.filter fun check => !config.disabledChecks.contains check.name

def markersFile (config : Config) (root : String) : String :=
  Path.join root (config.markersPath.getD MarkerStore.defaultPath)

def checksPackages (config : Config) : Bool :=
  config.packageInfo.getD true

def fileNames : List String := ["bootcheck.yaml", ".bootcheck.yaml"]

def readFile (files : FileSystem) (path : String) : Except Error Config :=
  match files.read path with
  | .error fault => .error (.read path fault)
  | .ok text =>
    match parse? text with
    | none => .error (.config (path ++ ": malformed settings"))
    | some config => config.validate.map fun _ => config

def findIn? (files : FileSystem) (folder : String) : Option String :=
  (fileNames.map (Path.join folder)).find? files.isFile

/-- The settings for a project: those of the given file, else of the file in the project folder,
else of the file in the user's folder, else none. -/
def load (files : FileSystem) (userFolder root : String) (given : Option String) :
    Except Error Config :=
  match given <|> findIn? files root <|> findIn? files userFolder with
  | some path => readFile files path
  | none => .ok {}

end Config

end SpringLint
