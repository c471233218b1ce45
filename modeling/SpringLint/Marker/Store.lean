import SpringLint.Error
import SpringLint.Marker.Record

/-! Stores of markers. -/

namespace SpringLint

structure MarkerStore where
  path : Option String := none
  table : Table (List Marker) := {}
  isDirty : Bool := false
  deriving DecidableEq, Repr

namespace MarkerStore

def defaultPath : String := ".bootcheck/markers.json"

def markers (store : MarkerStore) (resource : String) : List Marker :=
  (store.table.get? resource).getD []

def all (store : MarkerStore) : List Marker :=
  store.table.values.flatten

def delete (store : MarkerStore) (resource : String) : MarkerStore :=
  { store with table := store.table.erase resource, isDirty := true }

def addMarker (table : Table (List Marker)) (m : Marker) : Table (List Marker) :=
  table.insert m.resource ((table.get? m.resource).getD [] ++ [m])

def create (store : MarkerStore) (markers : List Marker) : MarkerStore :=
  { store with table := markers.foldl addMarker store.table, isDirty := true }

def clear (store : MarkerStore) : MarkerStore :=
  { store with table := .empty, isDirty := true }

def replace (store : MarkerStore) (resource : String) (markers : List Marker) : MarkerStore :=
  (store.delete resource).create markers

/-- Opens the store that a file keeps. A file that is missing or blank keeps none. -/
def openAt (files : FileSystem) (path : String) : Except Error MarkerStore :=
  let empty : MarkerStore := { path := some path }
  if files.isFile path then
    match files.read path with
    | .error fault => .error (.read path fault)
    | .ok text =>
      if Text.trim text == "" then .ok empty
      else
        match Marker.readAll? text with
        | some markers => .ok { empty.create markers with isDirty := false }
        | none => .error (.corruptStore path)
  else .ok empty

/-- Writes the file if it may differ from the markers. The folder is made before the file, and stays
even if the file cannot be written. -/
def flush (store : MarkerStore) (files : FileSystem) : FileSystem × Except Error MarkerStore :=
  match store.path with
  | none => (files, .ok store)
  | some path =>
    if store.isDirty then
      let made := match Path.parent? path with
        | some folder => files.makeFolders folder
        | none => .ok files
      match made with
      | .error fault => (files, .error (.write path fault))
      | .ok files =>
        match files.write path (Marker.writeAll store.all).toUTF8 with
        | .error fault => (files, .error (.write path fault))
        | .ok written => (written, .ok { store with isDirty := false })
    else (files, .ok store)

end MarkerStore

end SpringLint
