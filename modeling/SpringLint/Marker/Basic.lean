import SpringLint.Check.Finding

/-! Markers: reported problems as they are kept and shown. -/

namespace SpringLint

structure Marker where
  problemId : String
  severity : Severity
  resource : String
  /-- The bytes that are marked. A marker of a whole resource has none. -/
  start : Option Nat := none
  stop : Option Nat := none
  line : Option Nat := none
  message : String
  args : List String := []
  location : Option String := none
  deriving DecidableEq, Repr

namespace Marker

def problem? (m : Marker) : Option Problem :=
  Problem.ofId? m.problemId

/-- What markers of different passes are compared by. -/
def key (m : Marker) : String :=
  m.problemId ++ "|" ++ m.resource ++ "|" ++ toString (m.start.getD 0) ++ "|" ++ m.message

def ofResource (resource : String) (problem : Problem) (severity : Severity)
    (args : List String) : Marker where
  problemId := toString problem.id
  severity := severity
  resource := resource
  message := problem.message args
  args := args

def ofFinding (resource : String) (t : Tree) (finding : Finding) : Marker :=
  let span := t.span finding.node
  let line := t.lineNumber span.start
  { ofResource resource finding.problem finding.severity finding.args with
    start := some span.start
    stop := some span.stop
    line := some line
    location := some ("Line " ++ toString line) }

end Marker

end SpringLint
