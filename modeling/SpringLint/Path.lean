import SpringLint.Text.Split

/-! Paths as texts: joining, parts and extensions. -/

namespace SpringLint.Path

open Text

def isAbsolute (path : String) : Bool :=
  path.toList.head? == some '/'

/-- The path of `part` seen from `base`. An absolute part stands for itself, and an empty one marks
`base` as a folder. -/
def join (base part : String) : String :=
  if isAbsolute part then part
  else if base == "" || base.toList.getLast? == some '/' then base ++ part
  else base ++ "/" ++ part

/-- The parts of a path: separators and single dots are left out. -/
def parts (path : String) : List String :=
  (split '/' path).filter fun part => part != "" && part != "."

/-- The parts of a path once each `..` has taken back the part before it. -/
def resolved (parts : List String) : List String :=
  (parts.foldl (fun kept part => if part == ".." then kept.tail else part :: kept) []).reverse

def ofParts (parts : List String) : String :=
  "/" ++ joinWith "/" parts

def parent? (path : String) : Option String :=
  match parts path with
  | [] => none
  | all =>
    let folder := joinWith "/" all.dropLast
    some (if isAbsolute path then "/" ++ folder else folder)

def fileName? (path : String) : Option String :=
  (parts path).getLast?.filter (· != "..")

/-- A file name without its extension. A leading dot starts no extension. -/
def stem (name : String) : String :=
  match cutLast? '.' name with
  | some (head, _) => if head == "" then name else head
  | none => name

def extension? (name : String) : Option String :=
  match cutLast? '.' name with
  | some (head, tail) => if head == "" then none else some tail
  | none => none

/-- The path with another extension, which is added when it has none. -/
def withExtension (path ext : String) : String :=
  match fileName? path with
  | none => path
  | some name =>
    let renamed := stem name ++ "." ++ ext
    match beforeTail? name path with
    | some folder => folder ++ renamed
    | none => join ((parent? path).getD "") renamed

end SpringLint.Path
