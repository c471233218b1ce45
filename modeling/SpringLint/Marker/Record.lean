import SpringLint.Json.Reader
import SpringLint.Marker.Basic

/-! Markers as JSON records. -/

namespace SpringLint

namespace Json

def string? : Json → Option String
  | .string text => some text
  | _ => none

def word64? : Json → Option Nat
  | .nat n => if n < UInt64.size then some n else none
  | _ => none

def nullable (read : Json → Option α) : Json → Option (Option α)
  | .null => some none
  | value => (read value).map some

def strings? : Json → Option (List String)
  | .array items => items.mapM string?
  | _ => none

end Json

namespace Severity

/-- A severity is written as its name, or as an object that has the name as its only member. -/
def ofJson? : Json → Option Severity
  | .string "error" => some .error
  | .string "warning" => some .warning
  | .object [("error", .null)] => some .error
  | .object [("warning", .null)] => some .warning
  | _ => none

end Severity

namespace Marker

def fieldNames : List String :=
  ["problem_id", "severity", "resource", "char_start", "char_end", "line_number", "message",
    "message_args", "location"]

/-- The members of a marker's record. What is absent or empty is left out. -/
def members (m : Marker) : List (String × Json) :=
  let optional (name : String) (value : Option Json) : List (String × Json) :=
    (value.map fun value => (name, value)).toList
  [("problem_id", .string m.problemId), ("severity", .string m.severity.name),
    ("resource", .string m.resource)]
  ++ optional "char_start" (m.start.map .nat)
  ++ optional "char_end" (m.stop.map .nat)
  ++ optional "line_number" (m.line.map .nat)
  ++ [("message", .string m.message)]
  ++ optional "message_args" (if m.args.isEmpty then none else some (.array (m.args.map .string)))
  ++ optional "location" (m.location.map .string)

def toJson (m : Marker) : Json := .object m.members

def ofFields? (field? : String → Option Json) : Option Marker := do
  let optional {α : Type} (name : String) (read : Json → Option α) : Option (Option α) :=
    match field? name with
    | none => some none
    | some value => Json.nullable read value
  return {
    problemId := ← Json.string? (← field? "problem_id")
    severity := ← Severity.ofJson? (← field? "severity")
    resource := ← Json.string? (← field? "resource")
    start := ← optional "char_start" Json.word64?
    stop := ← optional "char_end" Json.word64?
    line := ← optional "line_number" Json.word64?
    message := ← Json.string? (← field? "message")
    args := ← match field? "message_args" with
      | none => some []
      | some value => Json.strings? value
    location := ← optional "location" Json.string? }

/-- Reads a marker off its record, or off the list of its values in order. Members with other names
are passed over; no field may be given twice. -/
def ofJson? : Json → Option Marker
  | .object members =>
    if fieldNames.any fun name => 1 < (members.filter fun member => member.1 == name).length then
      none
    else ofFields? fun name => members.lookup name
  | .array values =>
    if fieldNames.length < values.length then none
    else ofFields? fun name => (fieldNames.zip values).lookup name
  | _ => none

def writeAll (markers : List Marker) : String :=
  (Json.array (markers.map toJson)).pretty 0

def readAll? (text : String) : Option (List Marker) := do
  match ← Json.parse? text with
  | .array values => values.mapM ofJson?
  | _ => none

end Marker

end SpringLint
