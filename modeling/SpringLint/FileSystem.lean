import SpringLint.Path
import SpringLint.Table

/-! A tree of folders and files as a value, and the operations on it. -/

namespace SpringLint

inductive FileFault where
  | notFound
  | notFolder
  | isFolder
  | exists
  | notText
  | other (message : String)
  deriving DecidableEq, Repr

namespace FileFault

def message : FileFault → String
  | .notFound => "No such file or directory (os error 2)"
  | .notFolder => "Not a directory (os error 20)"
  | .isFolder => "Is a directory (os error 21)"
  | .exists => "File exists (os error 17)"
  | .notText => "stream did not contain valid UTF-8"
  | .other message => message

end FileFault

inductive Entry where
  | folder
  | file (content : ByteArray)

def Entry.size : Entry → Nat
  | .folder => 0
  | .file content => content.size

structure FileSystem where
  entries : Table Entry := {}
  current : String := "/"

namespace FileSystem

def absolute (fs : FileSystem) (path : String) : List String :=
  if Path.isAbsolute path then Path.parts path else Path.parts fs.current ++ Path.parts path

def entry? (fs : FileSystem) (parts : List String) : Option Entry :=
  if parts.isEmpty then some .folder else fs.entries.get? (Path.ofParts parts)

/-- Follows a path folder by folder; `at_` are the parts already followed. -/
def follow (fs : FileSystem) : List String → List String → Except FileFault (List String)
  | at_, [] => .ok at_
  | at_, part :: rest =>
    match fs.entry? at_ with
    | none => .error .notFound
    | some (.file _) => .error .notFolder
    | some .folder => fs.follow (if part == ".." then at_.dropLast else at_ ++ [part]) rest

/-- A path that names a folder by its last character. -/
def asksFolder (path : String) : Bool :=
  path.toList.getLast? == some '/' || Path.parts path == [] ||
    (Text.lastPart '/' path == ".")

def find (fs : FileSystem) (path : String) : Except FileFault Entry := do
  let parts ← fs.follow [] (fs.absolute path)
  match fs.entry? parts with
  | none => .error .notFound
  | some .folder => .ok .folder
  | some (.file content) => if asksFolder path then .error .notFolder else .ok (.file content)

def isFile (fs : FileSystem) (path : String) : Bool :=
  match fs.find path with
  | .ok (.file _) => true
  | _ => false

def read (fs : FileSystem) (path : String) : Except FileFault String :=
  match fs.find path with
  | .error fault => .error fault
  | .ok .folder => .error .isFolder
  | .ok (.file content) =>
    match String.fromUTF8? content with
    | some text => .ok text
    | none => .error .notText

def canonical (fs : FileSystem) (path : String) : Except FileFault String := do
  let parts ← fs.follow [] (fs.absolute path)
  let _ ← fs.find path
  .ok (Path.ofParts parts)

def put (fs : FileSystem) (parts : List String) (entry : Entry) : FileSystem :=
  { fs with entries := fs.entries.insert (Path.ofParts parts) entry }

def write (fs : FileSystem) (path : String) (content : ByteArray) :
    Except FileFault FileSystem := do
  let parts ← fs.follow [] (fs.absolute path)
  match fs.entry? parts with
  | some .folder => .error .isFolder
  | some (.file _) =>
    if asksFolder path then .error .notFolder else .ok (fs.put parts (.file content))
  | none => if asksFolder path then .error .isFolder else .ok (fs.put parts (.file content))

/-- Makes the folders along a path; `at_` are the parts already made. -/
def makeAlong (fs : FileSystem) : List String → List String → Except FileFault FileSystem
  | at_, [] =>
    match fs.entry? at_ with
    | some (.file _) => .error .exists
    | some .folder => .ok fs
    | none => .ok (fs.put at_ .folder)
  | at_, part :: rest =>
    match fs.entry? at_ with
    | some (.file _) => .error .notFolder
    | some .folder => fs.makeAlong (if part == ".." then at_.dropLast else at_ ++ [part]) rest
    | none =>
      (fs.put at_ .folder).makeAlong (if part == ".." then at_.dropLast else at_ ++ [part]) rest

def makeFolders (fs : FileSystem) (path : String) : Except FileFault FileSystem :=
  fs.makeAlong [] (fs.absolute path)

def remove (fs : FileSystem) (path : String) : FileSystem :=
  let name := Path.ofParts (Path.resolved (fs.absolute path))
  { fs with entries := { entries := fs.entries.entries.filter fun (other, _) =>
      other != name && !Text.startsWith (name ++ "/") other } }

def unlink (fs : FileSystem) (path : String) : FileSystem :=
  match fs.find path, fs.follow [] (fs.absolute path) with
  | .ok (.file _), .ok parts => { fs with entries := fs.entries.erase (Path.ofParts parts) }
  | _, _ => fs

def rename (fs : FileSystem) (source target : String) : Except FileFault FileSystem := do
  match fs.find source with
  | .error fault => .error fault
  | .ok .folder => .error .notFolder
  | .ok (.file content) =>
    let moved ← (fs.unlink source).write target content
    .ok moved

/-- Files below a folder by their path from it, the files of folders that `skips` names left out,
in ascending order. A file has itself below it, under the empty path. -/
def filesBelow (fs : FileSystem) (folder : String) (skips : String → Bool) : List String :=
  match fs.canonical folder with
  | .error _ => []
  | .ok base =>
    match fs.entry? (Path.parts base) with
    | some (.file _) => [""]
    | _ =>
      let head := if base == "/" then "/" else base ++ "/"
      fs.entries.entries.filterMap fun (path, entry) =>
        match entry, Text.afterHead? head path with
        | .file _, some relative =>
          if ((Text.split '/' relative).dropLast).any skips then none else some relative
        | _, _ => none

def byteCount (fs : FileSystem) : Nat :=
  fs.entries.values.foldr (fun entry bytes => entry.size + bytes) 0

end FileSystem

end SpringLint
