import SpringLint.Syntax.Javadoc
import SpringLint.Syntax.ParseTree
import SpringLint.Text.Split

/-! Parsed sources, with the package and the imports that they start with. -/

namespace SpringLint

structure Imports where
  single : List String := []
  onDemand : List String := []
  staticSingle : List String := []
  staticOnDemand : List String := []
  deriving DecidableEq, Repr

namespace Imports

open Text

def importsType (imports : Imports) (name : String) : Bool :=
  imports.single.contains name

def add (imports : Imports) (declaration : String) : Imports :=
  let trimmed := trim declaration
  let body := trimEnd (dropHeads "import" trimmed.length trimmed)
  let path := joinWith " " (words (String.ofList (dropTail (· == ';') body.toList)))
  match afterHead? "static " path with
  | some rest =>
    let name := compact rest
    match beforeTail? ".*" name with
    | some type => { imports with staticOnDemand := imports.staticOnDemand ++ [type] }
    | none => { imports with staticSingle := imports.staticSingle ++ [name] }
  | none =>
    let name := compact path
    match beforeTail? ".*" name with
    | some package => { imports with onDemand := imports.onDemand ++ [package] }
    | none => { imports with single := imports.single ++ [name] }

end Imports

structure Header where
  package : Option String := none
  imports : Imports := {}
  deriving DecidableEq, Repr

namespace Header

/-- Takes account of a node of the source. A later package declaration wins over an earlier one. -/
def addNode (t : Tree) (header : Header) (id : Nat) : Header :=
  match t.kind id with
  | .packageDeclaration =>
    let named := (t.children id).filter fun c =>
      t.kind c = .identifier || t.kind c = .scopedIdentifier
    match named.getLast? with
    | some c => { header with package := some (Text.compact (t.text c)) }
    | none => header
  | .importDeclaration => { header with imports := header.imports.add (t.text id) }
  | _ => header

def ofTree (t : Tree) : Header :=
  (List.range t.size).foldl (addNode t) {}

end Header

structure Source where
  tree : Tree
  header : Header
  hasErrors : Bool

namespace Source

def ofParse (text : String) (parse : Parse) : Source :=
  let tree := Javadoc.read (parse.tree.toTree text)
  { tree := tree, header := Header.ofTree tree, hasErrors := parse.hasErrors }

def parse? (grammar : Grammar) (text : String) : Option Source :=
  (grammar text).map (ofParse text)

end Source

end SpringLint
