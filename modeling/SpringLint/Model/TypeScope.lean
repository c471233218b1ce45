import SpringLint.Model.Index
import SpringLint.Syntax.Source

/-! Type names as they are written, and the types they stand for where they are written. -/

namespace SpringLint

structure TypeScope where
  index : Index
  package : Option String
  imports : Imports
  enclosing : List String := []
  parameters : List (List String) := []

namespace TypeScope

open Text

def ofHeader (index : Index) (header : Header) : TypeScope :=
  { index := index, package := header.package, imports := header.imports }

def enterType (scope : TypeScope) (name : String) (parameters : List String) : TypeScope :=
  { scope with enclosing := name :: scope.enclosing, parameters := parameters :: scope.parameters }

def leaveType (scope : TypeScope) : TypeScope :=
  { scope with enclosing := scope.enclosing.tail, parameters := scope.parameters.tail }

def enterVariables (scope : TypeScope) (parameters : List String) : TypeScope :=
  { scope with parameters := parameters :: scope.parameters }

def leaveVariables (scope : TypeScope) : TypeScope :=
  { scope with parameters := scope.parameters.tail }

def isVariable (scope : TypeScope) (name : String) : Bool :=
  scope.parameters.any (·.contains name)

def within (outer name : String) : String :=
  outer ++ "." ++ name

def inPackage (package : Option String) (name : String) : String :=
  match package with
  | some package => within package name
  | none => name

def qualify (scope : TypeScope) (name : String) : String :=
  match scope.enclosing.head? with
  | some outer => within outer name
  | none => inPackage scope.package name

/-- The member type `name` of the type `outer` or of one of its supertypes. -/
def member? (scope : TypeScope) (outer name : String) : Option String :=
  let direct := within outer name
  if scope.index.contains direct then some direct
  else do
    let d ← scope.index.get? outer
    ((scope.index.supertypes d).map fun other => within other.name name).find?
      scope.index.contains

/-- The meaning that the types around the place give to a simple name. -/
def enclosing? (scope : TypeScope) (name : String) : Option String :=
  scope.enclosing.findSome? fun outer =>
    if lastPart '.' outer == name then some outer else scope.member? outer name

/-- The meaning of a simple name: that of the types around the place, then that of an import of the
type itself, which need not be known, then the type of the same package, those of imported packages,
and those of the package that is always imported. -/
def resolveSimple (scope : TypeScope) (name : String) : Option String :=
  if scope.isVariable name then none
  else
    scope.enclosing? name <|> (scope.imports.single.find? (endsWith ("." ++ name))) <|>
      (inPackage scope.package name ::
        (scope.imports.onDemand ++ ["java.lang"]).map fun package => within package name).find?
        scope.index.contains

/-- The meaning of a name that starts with `first` and goes on after a dot. A first part in lower
case is that of a package. -/
def resolveDotted (scope : TypeScope) (name first rest : String) : Option String :=
  if scope.index.contains name then some name
  else
    match scope.resolveSimple first with
    | some outer => some (within outer rest)
    | none =>
      if (first.toList.head?.map fun c => 'a' ≤ c && c ≤ 'z').getD false then some name else none

def primitives : List String :=
  ["boolean", "byte", "char", "short", "int", "long", "float", "double", "void"]

/-- The qualified name of the type that a written name stands for. -/
def resolve (scope : TypeScope) (written : String) : Option String :=
  let name := trim written
  if name == "" then none
  else if primitives.contains name then some name
  else
    match cut? '.' name with
    | some (first, rest) => scope.resolveDotted name first rest
    | none => scope.resolveSimple name

def rawChild? (t : Tree) (id : Nat) : Option Nat :=
  (t.namedChildren id).find? fun c => t.kind c ≠ .typeArguments

theorem mem_of_rawChild? {t : Tree} {id c : Nat} (found : rawChild? t id = some c) :
    c ∈ (t.node id).children :=
  Tree.mem_node_of_mem_namedChildren (List.mem_of_find?_eq_some found)

def plainChild? (t : Tree) (id : Nat) : Option Nat :=
  (t.namedChildren id).find? fun c => !(t.kind c).isAnnotationUse

theorem mem_of_plainChild? {t : Tree} {id c : Nat} (found : plainChild? t id = some c) :
    c ∈ (t.node id).children :=
  Tree.mem_node_of_mem_namedChildren (List.mem_of_find?_eq_some found)

/-- The type that a node stands for, without type arguments. An array type ends in a pair of
brackets a dimension, and a type variable stands for any object. -/
def resolveNode (scope : TypeScope) (t : Tree) (id : Nat) : Option String :=
  match t.kind id with
  | .typeIdentifier | .scopedTypeIdentifier =>
    let name := compact (t.text id)
    if scope.isVariable name then some Catalogue.object else scope.resolve name
  | .genericType =>
    match _found : rawChild? t id with
    | some c => scope.resolveNode t c
    | none => none
  | .arrayType =>
    match _found : t.childByField id "element" with
    | some c =>
      let dimensions :=
        match t.childByField id "dimensions" with
        | some d => (t.text d).toList.count '['
        | none => 1
      (scope.resolveNode t c).map fun element =>
        element ++ String.join (List.replicate dimensions "[]")
    | none => none
  | .voidType | .integralType | .floatingPointType | .booleanType => some (t.text id)
  | .other "annotated_type" =>
    match _found : plainChild? t id with
    | some c => scope.resolveNode t c
    | none => none
  | _ => none
termination_by t.size - id
decreasing_by
  · exact Tree.child_decreases (mem_of_rawChild? _found)
  · exact Tree.child_decreases (Tree.mem_node_of_childByField _found)
  · exact Tree.child_decreases (mem_of_plainChild? _found)

def writtenName (t : Tree) (id : Nat) : String :=
  match t.kind id with
  | .genericType => compact (t.text ((rawChild? t id).getD id))
  | _ => compact (t.text id)

/-- The type that a node stands for, or its written name when that is not known. -/
def nameOf (scope : TypeScope) (t : Tree) (id : Nat) : String :=
  (scope.resolveNode t id).getD (writtenName t id)

end TypeScope

end SpringLint
