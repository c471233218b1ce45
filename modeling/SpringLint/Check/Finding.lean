import SpringLint.Problem
import SpringLint.Project.Query
import SpringLint.Syntax.Walk

/-! What checks find, and how they look for it. -/

namespace SpringLint

structure Finding where
  problem : Problem
  severity : Severity
  node : Nat
  args : List String := []
  deriving DecidableEq, Repr

namespace Finding

def warning (problem : Problem) (node : Nat) (args : List String) : Finding :=
  { problem := problem, severity := .warning, node := node, args := args }

def error (problem : Problem) (node : Nat) : Finding :=
  { problem := problem, severity := .error, node := node }

end Finding

namespace Tree

/-- What a look at the nodes of a tree, in source order, gives. A look also says whether to go on
below the node. -/
def gather (t : Tree) (look : Nat → Bool × List α) : List α :=
  t.walk
    { visit := fun id found =>
        let (goesIn, more) := look id
        (goesIn, found ++ more) }
    root []

def gatherAll (t : Tree) (look : Nat → List α) : List α :=
  t.gather fun id => (true, look id)

def hasModifier (t : Tree) (declaration : Nat) (keyword : String) : Bool :=
  match t.childOfKind declaration .modifiers with
  | some list => t.hasToken list keyword
  | none => false

def isExported (t : Tree) (declaration : Nat) : Bool :=
  t.hasModifier declaration "public" || t.hasModifier declaration "protected"

def members (t : Tree) (declaration : Nat) : List Nat :=
  match t.childByField declaration "body" with
  | none => []
  | some body =>
    (t.namedChildren body).flatMap fun c =>
      if t.kind c = .enumBodyDeclarations then t.namedChildren c else [c]

def arguments (t : Tree) (call : Nat) : List Nat :=
  match t.childByField call "arguments" with
  | some list => (t.namedChildren list).filter fun c => !(t.kind c).isComment
  | none => []

end Tree

end SpringLint
