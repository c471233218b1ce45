import SpringLint.FileSystem
import SpringLint.Syntax.Listing

/-! Snapshots: the files that a command line works on, with the parse trees of the sources, as one
JSON text. Its members are `files`, an array of pairs of path and text, `trees`, an array of
listings, and optionally `current` and `user`, the current folder and the folder of the user's
settings. -/

namespace SpringLint

structure Snapshot where
  files : FileSystem
  grammar : Grammar
  userFolder : String

namespace Snapshot

def addFile (files : FileSystem) : Json → Option FileSystem
  | .array [.string path, .string text] => do
    let folders ← (files.makeFolders (← Path.parent? path)).toOption
    (folders.write path text.toUTF8).toOption
  | _ => none

def ofJson? (value : Json) : Option Snapshot := do
  let .array listed ← value.get? "files" | none
  let .array trees ← value.get? "trees" | none
  let text (name usual : String) : String :=
    match value.get? name with
    | some (.string text) => text
    | _ => usual
  return {
    files := ← listed.foldlM addFile { current := text "current" "/" }
    grammar := ← Grammar.ofJson? (.array trees)
    userFolder := text "user" "/.config/bootcheck" }

def parse? (text : String) : Option Snapshot :=
  (Json.parse? text).bind ofJson?

def holds (fs : FileSystem) (path : String) (content : ByteArray) : Bool :=
  match fs.entries.get? path with
  | some (.file old) => old.data == content.data
  | _ => false

def written (before after : FileSystem) : List (String × ByteArray) :=
  after.entries.entries.filterMap fun (path, entry) =>
    match entry with
    | .folder => none
    | .file content => if holds before path content then none else some (path, content)

end Snapshot

end SpringLint
