import SpringLint.Project.Basic
import SpringLint.Project.Factories

/-! Questions that checks and fixes ask about a source. What is not known is answered by "no" or by
nothing. -/

namespace SpringLint

structure Query where
  unit : SourceUnit
  project : Project
  files : FileSystem

namespace Query

def tree (q : Query) : Tree := q.unit.tree

def index (q : Query) : Index := q.project.index

def typeOf? (q : Query) (id : Nat) : Option String :=
  match q.unit.binding? id with
  | some (.type name) => some name
  | _ => none

def calleeOf? (q : Query) (id : Nat) : Option Callee :=
  match q.unit.binding? id with
  | some (.method callee) => some callee
  | _ => none

def variableOf? (q : Query) (id : Nat) : Option Nat :=
  match q.unit.binding? id with
  | some (.variable declaration) => some declaration
  | _ => none

def annotations (q : Query) (declaration : Nat) : List Nat :=
  match q.tree.childOfKind declaration .modifiers with
  | some list => (q.tree.children list).filter fun c => (q.tree.kind c).isAnnotationUse
  | none => []

def findUse? (q : Query) (declaration : Nat) (name : String) : Option Nat :=
  (q.annotations declaration).find? fun use => q.typeOf? use == some name

/-- Whether a declaration carries an annotation, directly or through the annotations on its
annotations. -/
def carries (q : Query) (declaration : Nat) (name : String) : Bool :=
  q.index.reaches name [] ((q.annotations declaration).filterMap q.typeOf?)

def argumentValue? (q : Query) (element : String) (argument : Nat) : Option ElementValue :=
  let t := q.tree
  if t.kind argument = .elementValuePair then do
    let key ← t.childByField argument "key"
    guard (t.text key == element)
    let value ← t.childByField argument "value"
    return Declaration.elementValue t value
  else if (t.kind argument).isComment then none
  else if element == "value" then some (Declaration.elementValue t argument)
  else none

def elementValue? (q : Query) (use : Nat) (element : String) : Option ElementValue := do
  let arguments ← q.tree.childByField use "arguments"
  (q.tree.namedChildren arguments).findSome? (q.argumentValue? element)

def elementBool? (q : Query) (use : Nat) (element : String) : Option Bool := do
  let type ← q.typeOf? use
  match q.elementValue? use element with
  | some value => value.bool?
  | none => q.index.elementDefault? type element

def location (q : Query) : SourceLocation :=
  q.project.layout.classify q.unit.resource

/-- Whether a class outside the project could override a method. -/
def isOverridable (method : Method) (owner : TypeDecl) : Bool :=
  !owner.modifiers.isFinal && !method.modifiers.isFinal &&
    (method.modifiers.isPublic || method.modifiers.isProtected)

/-- Whether two parameters have the same type as far as overriding goes. A type variable matches any
type, and a name that is not known matches a qualified name that ends in it. -/
def sameType (a b : Parameter) : Bool :=
  a.isTypeVariable || b.isTypeVariable || a.typeName == b.typeName ||
    ((!Text.hasChar '.' a.typeName || !Text.hasChar '.' b.typeName) &&
      Text.lastPart '.' a.typeName == Text.lastPart '.' b.typeName)

/-- Whether a method overrides `candidate`, if that belongs to a supertype and has the same name. -/
def isOverrideOf (method candidate : Method) : Bool :=
  !candidate.isConstructor && !candidate.modifiers.isPrivate && !candidate.modifiers.isStatic &&
    candidate.parameters.length == method.parameters.length &&
    (method.parameters.zip candidate.parameters).all fun (a, b) => sameType a b

/-- Whether a method may override one of a supertype. An unknown supertype could have it. -/
def overrides (q : Query) (method : Method) (owner : TypeDecl) : Bool :=
  if method.isConstructor || method.modifiers.isPrivate || method.modifiers.isStatic then false
  else
    q.index.hasUnknownSupertypes owner ||
      (q.index.supertypes owner).any fun d =>
        (d.methodsNamed method.name).any (isOverrideOf method)

/-- The first readable factories manifest of the module. There is no answer when the layout cannot
tell the module. -/
def factories? (q : Query) : Option (Option Factories) :=
  (q.project.layout.manifestPaths? q.unit.resource).map fun paths =>
    paths.findSome? fun path =>
      match q.files.read path with
      | .ok text => some (Factories.parse text)
      | .error _ => none

end Query

end SpringLint
