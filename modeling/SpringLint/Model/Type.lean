import SpringLint.Text.Split

/-! Declared types and their members, and what nodes of a tree stand for. -/

namespace SpringLint

inductive TypeKind where
  | classType
  | interfaceType
  | enumType
  | recordType
  | annotationType
  deriving DecidableEq, Repr

namespace TypeKind

def isInterface : TypeKind → Bool
  | .interfaceType | .annotationType => true
  | _ => false

end TypeKind

/-- Modifiers of a declaration, written or implied by where it stands. -/
structure Modifiers where
  isPublic : Bool := false
  isProtected : Bool := false
  isPrivate : Bool := false
  isStatic : Bool := false
  isFinal : Bool := false
  isAbstract : Bool := false
  isDefault : Bool := false
  deriving DecidableEq, Repr

namespace Modifiers

def add (m : Modifiers) (keyword : String) : Modifiers :=
  match keyword with
  | "public" => { m with isPublic := true }
  | "protected" => { m with isProtected := true }
  | "private" => { m with isPrivate := true }
  | "static" => { m with isStatic := true }
  | "final" => { m with isFinal := true }
  | "abstract" => { m with isAbstract := true }
  | "default" => { m with isDefault := true }
  | _ => m

def isPackagePrivate (m : Modifiers) : Bool :=
  !m.isPublic && !m.isProtected && !m.isPrivate

end Modifiers

inductive ElementValue where
  | bool (value : Bool)
  | text (value : String)
  | expression (source : String)
  deriving DecidableEq, Repr

namespace ElementValue

def bool? : ElementValue → Option Bool
  | .bool value => some value
  | _ => none

end ElementValue

structure AnnotationUse where
  /-- The qualified name if it is known, else the name as it is written. -/
  typeName : String
  isResolved : Bool
  /-- The elements that are given a value. A value without a name is for the element `value`. -/
  values : List (String × ElementValue) := []
  node : Option Nat := none
  deriving DecidableEq, Repr

namespace AnnotationUse

def value? (use : AnnotationUse) (element : String) : Option ElementValue :=
  use.values.lookup element

end AnnotationUse

structure Parameter where
  name : String
  typeName : String
  isTypeVariable : Bool
  deriving DecidableEq, Repr

structure Method where
  name : String
  parameters : List Parameter := []
  isVariadic : Bool := false
  returns : Option String := none
  modifiers : Modifiers := {}
  annotations : List AnnotationUse := []
  isConstructor : Bool := false
  hasBody : Bool := false
  defaultValue : Option ElementValue := none
  node : Option Nat := none
  deriving DecidableEq, Repr

namespace Method

def accepts (m : Method) (count : Nat) : Bool :=
  if m.isVariadic then m.parameters.length ≤ count + 1 else count == m.parameters.length

def carries (m : Method) (name : String) : Bool :=
  m.annotations.any fun use => use.typeName == name

def isAbstract (m : Method) : Bool :=
  !m.isConstructor && !m.hasBody && !m.modifiers.isStatic && !m.modifiers.isDefault &&
    !m.modifiers.isPrivate

end Method

structure Field where
  name : String
  typeName : Option String
  modifiers : Modifiers := {}
  annotations : List AnnotationUse := []
  deriving DecidableEq, Repr

structure TypeDecl where
  name : String
  simpleName : String
  kind : TypeKind
  modifiers : Modifiers := {}
  superclass : Option String := none
  interfaces : List String := []
  hasUnresolved : Bool := false
  annotations : List AnnotationUse := []
  methods : List Method := []
  fields : List Field := []
  typeParameters : List String := []
  /-- Whether every method of the type is listed. -/
  isComplete : Bool := true
  node : Option Nat := none
  deriving DecidableEq, Repr

namespace TypeDecl

def isAnonymous (d : TypeDecl) : Bool :=
  d.name == ""

def methodsNamed (d : TypeDecl) (name : String) : List Method :=
  d.methods.filter fun m => m.name == name

def constructors (d : TypeDecl) : List Method :=
  d.methods.filter (·.isConstructor)

def field? (d : TypeDecl) (name : String) : Option Field :=
  d.fields.find? fun f => f.name == name

def annotationUse? (d : TypeDecl) (name : String) : Option AnnotationUse :=
  d.annotations.find? fun use => use.typeName == name

def parents (d : TypeDecl) : List String :=
  d.superclass.toList ++ d.interfaces

/-- The name that factory manifests use, in which a dollar sign parts a nested type from the type
around it. -/
def binaryName (d : TypeDecl) (package : Option String) : String :=
  match package with
  | none | some "" => Text.replaceAll "." "$" d.name
  | some package =>
    let nested := (Text.afterHead? (package ++ ".") d.name).getD d.name
    package ++ "." ++ Text.replaceAll "." "$" nested

end TypeDecl

structure Callee where
  declaringType : String
  name : String
  returns : Option String := none
  annotations : List String := []
  isStatic : Bool := false
  deriving DecidableEq, Repr

namespace Callee

def ofMethod (declaringType : String) (m : Method) : Callee where
  declaringType := declaringType
  name := m.name
  returns := m.returns
  annotations := (m.annotations.filter (·.isResolved)).map (·.typeName)
  isStatic := m.modifiers.isStatic

def is (callee : Callee) (declaringType name : String) : Bool :=
  callee.declaringType == declaringType && callee.name == name

end Callee

inductive Binding where
  | type (name : String)
  | method (callee : Callee)
  /-- A local variable or parameter, by the node that names it where it is declared. -/
  | variable (declaration : Nat)
  deriving DecidableEq, Repr

end SpringLint
