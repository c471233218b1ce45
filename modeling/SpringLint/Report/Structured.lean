import SpringLint.Session

/-! Reports for other programs. -/

namespace SpringLint

namespace Marker

def startsBefore : Option Nat → Option Nat → Bool
  | none, some _ => true
  | some a, some b => a < b
  | _, none => false

/-- Whether a marker comes strictly before another in reports: by resource, then by place, then by
the number of the problem as a text. -/
def isBefore (a b : Marker) : Bool :=
  a.resource < b.resource ||
    (a.resource == b.resource &&
      (startsBefore a.start b.start || (a.start == b.start && a.problemId < b.problemId)))

/-- Markers in the order of reports; those that are alike in it stay in order. -/
def sorted (markers : List Marker) : List Marker :=
  markers.mergeSort fun a b => !isBefore b a

def problemName (m : Marker) : String :=
  (m.problem?.map Problem.name).getD m.problemId

end Marker

namespace Report

def toolName : String := "bootcheck"

def version : String := "0.1.0"

def optional (name : String) (value : Option Json) : List (String × Json) :=
  (value.map fun value => (name, value)).toList

def markerJson (m : Marker) : Json :=
  .object (
    [("problem_id", .string m.problemId), ("problem", .string m.problemName),
      ("severity", .string m.severity.name), ("resource", .string m.resource)]
    ++ optional "line" (m.line.map .nat)
    ++ [("message", .string m.message)])

def json (path : String) (pass : Pass) : Json :=
  .object (
    [("version", .string version), ("path", .string path), ("passed", .bool pass.hasPassed),
      ("cancelled", .bool pass.isCancelled), ("files_analyzed", .nat pass.analyzed.length),
      ("errors", .nat (pass.count .error)), ("warnings", .nat (pass.count .warning)),
      ("markers", .array ((Marker.sorted pass.markers).map markerJson))]
    ++ optional "failures"
      (if pass.failures.isEmpty then none
      else some (.array (pass.failures.map fun (resource, error) =>
        .object [("resource", .string resource), ("error", .string error.message)]))))

def usualSeverity : Problem → Severity
  | .failureAnalyzerNotInSpringFactories | .incompleteUseOfAssertThat
  | .invocationOfUnproxiedBeanMethod | .mismatchedBeanMethodProxying => .error
  | _ => .warning

def textJson (text : String) : Json := .object [("text", .string text)]

def ruleJson (problem : Problem) : Json :=
  .object [
    ("id", .string problem.name),
    ("name", .string problem.title),
    ("shortDescription", textJson problem.template),
    ("defaultConfiguration", .object [("level", .string (usualSeverity problem).name)])]

def resultJson (m : Marker) : Json :=
  .object [
    ("ruleId", .string m.problemName),
    ("level", .string m.severity.name),
    ("message", textJson m.message),
    ("locations", .array [.object [("physicalLocation", .object (
      ("artifactLocation", .object [("uri", .string m.resource)]) ::
        optional "region" (m.line.map fun line => .object [("startLine", .nat (max line 1))])))]])]

def sarif (markers : List Marker) : Json :=
  let reported := Problem.all.filter fun problem =>
    markers.any fun m => m.problem? = some problem
  .object [
    ("version", .string "2.1.0"),
    ("$schema", .string ("https://raw.githubusercontent.com/oasis-tcs/sarif-spec/master/"
      ++ "Schemata/sarif-schema-2.1.0.json")),
    ("runs", .array [.object [
      ("tool", .object [("driver", .object [
        ("name", .string toolName),
        ("version", .string version),
        ("rules", .array (reported.map ruleJson))])]),
      ("results", .array ((Marker.sorted markers).map resultJson))]])]

end Report

end SpringLint
