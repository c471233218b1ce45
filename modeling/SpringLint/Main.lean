import SpringLint.CommandLine.Run
import SpringLint.CommandLine.Snapshot

/-! The program. It takes a command line, reads a snapshot of the files from standard input, carries
the command out on it, and writes the files that have changed. -/

open SpringLint

def saveFiles (changed : List (String × ByteArray)) : IO Unit := do
  for (path, content) in changed do
    if let some folder := Path.parent? path then
      IO.FS.createDirAll folder
    IO.FS.writeBinFile path content

def finish (ending : Ending) : IO UInt32 := do
  match ending with
  | .exit code => return code.toUInt32
  | .error error =>
    IO.eprintln ("Error: " ++ error.message)
    return 2
  | .noAccess path fault =>
    IO.eprintln ("Error: " ++ Ending.noAccessMessage path fault)
    return 2
  | .crash =>
    IO.eprintln "Error: the project cannot be analysed"
    return 101

def main (args : List String) : IO UInt32 := do
  match Command.parse args with
  | .error usage =>
    IO.eprintln usage.name
    return usage.code.toUInt32
  | .ok command =>
    let some snapshot := Snapshot.parse? (← (← IO.getStdin).readToEnd)
      | do
        IO.eprintln "Error: standard input holds no snapshot"
        return 2
    let done := command.run
      { grammar := snapshot.grammar, userFolder := snapshot.userFolder } snapshot.files
    IO.print done.console.out
    IO.eprint done.console.err
    saveFiles (Snapshot.written snapshot.files done.files)
    finish done.ending
