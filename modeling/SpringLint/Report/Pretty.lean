import SpringLint.Report.Structured

/-! Reports for people. -/

namespace SpringLint

inductive Style where
  | heading
  | dimmed
  | bold
  | blue
  | yellow
  | red
  | green
  deriving DecidableEq, Repr

namespace Style

def code : Style → String
  | .heading => "1;36"
  | .dimmed => "2"
  | .bold => "1"
  | .blue => "34"
  | .yellow => "33"
  | .red => "31"
  | .green => "32"

def switchOff : String := "\x1b[0m"

/-- A text in a style. A text that itself switches styles off is taken back to the style. -/
def paint (coloured : Bool) (style : Style) (text : String) : String :=
  if coloured then
    let switchOn := "\x1b[" ++ style.code ++ "m"
    switchOn ++ Text.replaceAll switchOff (switchOff ++ switchOn) text ++ switchOff
  else text

end Style

namespace Report

def padded (width : Nat) (text : String) : String :=
  text ++ String.ofList (List.replicate (width - text.length) ' ')

def severityTag (coloured : Bool) : Severity → String
  | .error => "    " ++ Style.red.paint coloured "ERROR" ++ " "
  | .warning => "    " ++ Style.yellow.paint coloured "WARN " ++ " "

def markerText (coloured : Bool) (m : Marker) : String :=
  let name := (m.problem?.map Problem.title).getD m.problemId
  let line := match m.line with
    | some line => Style.dimmed.paint coloured (":" ++ toString line)
    | none => ""
  severityTag coloured m.severity ++ "   " ++ Style.dimmed.paint coloured (padded 36 name)
    ++ Style.blue.paint coloured m.resource ++ line ++ "\n"
    ++ "            " ++ m.message ++ "\n\n"

def markersText (coloured : Bool) (markers : List Marker) : String :=
  "  " ++ Style.bold.paint coloured "Problems" ++ " (" ++ toString markers.length ++ "):\n\n"
    ++ String.join ((Marker.sorted markers).map (markerText coloured))

def failuresText (coloured : Bool) (failures : List (String × Error)) : String :=
  "  " ++ Style.bold.paint coloured "Not analyzed" ++ " (" ++ toString failures.length ++ "):\n"
    ++ String.join (failures.map fun (resource, error) =>
      "    " ++ Style.blue.paint coloured resource ++ "  "
        ++ Style.dimmed.paint coloured error.message ++ "\n")

def statusText (coloured : Bool) (pass : Pass) : String :=
  let status :=
    if pass.hasPassed then Style.green.paint coloured "✓ PASS"
    else Style.red.paint coloured "✗ FAIL"
  let counts := toString pass.analyzed.length ++ " files, " ++ toString (pass.count .error)
    ++ " errors, " ++ toString (pass.count .warning) ++ " warnings"
  let note :=
    if pass.isCancelled then "  " ++ Style.yellow.paint coloured "(cancelled)" else ""
  "  " ++ status ++ "  " ++ Style.dimmed.paint coloured counts ++ note ++ "\n"

def pretty (coloured : Bool) (path : String) (pass : Pass) : String :=
  "\n  " ++ Style.heading.paint coloured toolName ++ " v" ++ version ++ "\n\n"
    ++ "  " ++ Style.dimmed.paint coloured "Analyzing: " ++ path ++ "\n\n"
    ++ (if pass.markers.isEmpty then "" else markersText coloured pass.markers ++ "\n")
    ++ (if pass.failures.isEmpty then "" else failuresText coloured pass.failures ++ "\n")
    ++ statusText coloured pass ++ "\n"

end Report

end SpringLint
