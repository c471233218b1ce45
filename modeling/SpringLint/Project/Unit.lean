import SpringLint.Model.Bindings
import SpringLint.Syntax.Source

/-! A source of a project and what is known about it. -/

namespace SpringLint

structure SourceUnit where
  resource : String
  tree : Tree
  header : Header := {}
  hasErrors : Bool := false
  types : List TypeDecl := []
  bindings : NodeMap Binding := {}

namespace SourceUnit

def ofSource (resource : String) (source : Source) : SourceUnit where
  resource := resource
  tree := source.tree
  header := source.header
  hasErrors := source.hasErrors

def names (unit : SourceUnit) : List DeclaredName :=
  Declaration.names unit.tree unit.header

def declare (unit : SourceUnit) (index : Index) : List TypeDecl :=
  Declaration.types unit.tree unit.header unit.names index

def link (unit : SourceUnit) (types : List TypeDecl) (index : Index) : SourceUnit :=
  { unit with
    types := types
    bindings := Bindings.ofTree unit.tree unit.header types index }

def package (unit : SourceUnit) : Option String :=
  unit.header.package

def binding? (unit : SourceUnit) (id : Nat) : Option Binding :=
  unit.bindings.get? id

def typeAt? (unit : SourceUnit) (id : Nat) : Option TypeDecl :=
  unit.types.find? fun d => d.node == some id

def enclosingType? (unit : SourceUnit) (id : Nat) : Option TypeDecl :=
  (unit.tree.ancestors id).findSome? unit.typeAt?

def methodAt? (unit : SourceUnit) (id : Nat) : Option (TypeDecl × Method) := do
  let owner ← unit.enclosingType? id
  let method ← owner.methods.find? fun m => m.node == some id
  return (owner, method)

end SourceUnit

end SpringLint
