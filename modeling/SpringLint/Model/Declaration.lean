import SpringLint.Model.TypeScope

/-! The types that a source declares. -/

namespace SpringLint

structure DeclaredName where
  node : Nat
  name : String
  kind : TypeKind
  deriving DecidableEq, Repr

namespace TypeKind

def ofKind? : Kind → Option TypeKind
  | .classDeclaration => some .classType
  | .interfaceDeclaration => some .interfaceType
  | .enumDeclaration => some .enumType
  | .recordDeclaration => some .recordType
  | .annotationTypeDeclaration => some .annotationType
  | _ => none

end TypeKind

namespace Declaration

open TypeScope

/-- The named type that a node declares, `outer` being the type around it. -/
def named? (t : Tree) (package outer : Option String) (id : Nat) : Option DeclaredName := do
  let kind ← TypeKind.ofKind? (t.kind id)
  let name := t.text (← t.childByField id "name")
  return {
    node := id
    name := match outer with
      | some outer => within outer name
      | none => inPackage package name
    kind := kind }

/-- The named types that a node and everything below it declare, in source order. -/
def namesBelow (t : Tree) (package outer : Option String) (id : Nat) : List DeclaredName :=
  let declared := named? t package outer id
  let inner := (declared.map (·.name)) <|> outer
  declared.toList ++ (t.namedChildren id).attach.flatMap fun c => namesBelow t package inner c.1
termination_by t.size - id
decreasing_by exact Tree.child_decreases (Tree.mem_node_of_mem_namedChildren c.2)

def names (t : Tree) (header : Header) : List DeclaredName :=
  namesBelow t header.package none Tree.root

def elementValue (t : Tree) (id : Nat) : ElementValue :=
  match t.kind id with
  | .other "true" => .bool true
  | .other "false" => .bool false
  | .stringLiteral => .text (String.ofList (Text.trimBoth (· == '"') (t.text id).toList))
  | _ => .expression (t.text id)

def elementPair? (t : Tree) (argument : Nat) : Option (String × ElementValue) :=
  if t.kind argument = .elementValuePair then do
    let key ← t.childByField argument "key"
    let value ← t.childByField argument "value"
    return (t.text key, elementValue t value)
  else if (t.kind argument).isComment then none
  else some ("value", elementValue t argument)

def annotationUse (scope : TypeScope) (t : Tree) (id : Nat) : AnnotationUse :=
  let written := ((t.childByField id "name").map t.text).getD ""
  let resolved := scope.resolve written
  { typeName := resolved.getD written
    isResolved := resolved.isSome
    values :=
      match t.childByField id "arguments" with
      | some arguments => (t.namedChildren arguments).filterMap (elementPair? t)
      | none => []
    node := some id }

def variableNames (t : Tree) (list : Nat) : List String :=
  (t.childrenOfKind list .typeParameter).filterMap fun entry =>
    ((t.namedChildren entry).find? fun c =>
      t.kind c = .typeIdentifier || t.kind c = .identifier).map t.text

def typeVariables (t : Tree) (id : Nat) : List String :=
  match t.childByField id "type_parameters" <|> t.childOfKind id .typeParameters with
  | some list => variableNames t list
  | none => []

def methodVariables (t : Tree) (id : Nat) : List String :=
  match t.childOfKind id .typeParameters with
  | some list => variableNames t list
  | none => []

def modifiers (scope : TypeScope) (t : Tree) (id : Nat) : Modifiers × List AnnotationUse :=
  match t.childOfKind id .modifiers with
  | none => ({}, [])
  | some list =>
    let keywords := (t.children list).filterMap fun c =>
      match t.kind c with
      | .token word => some word
      | _ => none
    let uses := (t.children list).filter fun c => (t.kind c).isAnnotationUse
    (keywords.foldl Modifiers.add {}, uses.map (annotationUse scope t))

def spreadType? (t : Tree) (id : Nat) : Option Nat :=
  (t.namedChildren id).find? fun c => t.kind c ≠ .modifiers && t.kind c ≠ .variableDeclarator

def parameter (scope : TypeScope) (t : Tree) (type name : Nat) : Parameter where
  name := t.text name
  typeName := scope.nameOf t type
  isTypeVariable := scope.isVariable (writtenName t type)

def parameter? (scope : TypeScope) (t : Tree) (id : Nat) : Option (Parameter × Bool) :=
  match t.kind id with
  | .formalParameter => do
    let type ← t.childByField id "type"
    let name ← t.childByField id "name"
    return (parameter scope t type name, false)
  | .spreadParameter => do
    let type ← spreadType? t id
    let name ← t.childByField (← t.childOfKind id .variableDeclarator) "name"
    let single := parameter scope t type name
    return ({ single with typeName := single.typeName ++ "[]" }, true)
  | _ => none

def parameters (scope : TypeScope) (t : Tree) (list : Nat) : List Parameter × Bool :=
  let all := (t.namedChildren list).filterMap (parameter? scope t)
  (all.map (·.1), all.any (·.2))

/-- The parameters of a method; those of a compact constructor are the components of its record. -/
def parameterList? (t : Tree) (id : Nat) : Option Nat :=
  if t.kind id = .compactConstructorDeclaration then do
    let record ← t.findAncestor id (· = .recordDeclaration)
    t.childByField record "parameters"
  else t.childByField id "parameters"

/-- A method of a type of kind `owner`. What the kind implies is added to the modifiers. -/
def method (scope : TypeScope) (t : Tree) (owner : TypeKind) (id : Nat) : Method :=
  let kind := t.kind id
  let (written, annotations) := modifiers scope t id
  let inner := scope.enterVariables (methodVariables t id)
  let isConstructor := kind = .constructorDeclaration || kind = .compactConstructorDeclaration
  let (parameters, isVariadic) :=
    match parameterList? t id with
    | some list => parameters inner t list
    | none => ([], false)
  let hasBody := (t.childByField id "body").isSome
  let visible :=
    if owner.isInterface then
      { written with
        isPublic := written.isPublic || !written.isPrivate
        isAbstract := written.isAbstract ||
          (!hasBody && !written.isStatic && !written.isDefault && !written.isPrivate) }
    else written
  { name := ((t.childByField id "name").map t.text).getD ""
    parameters := parameters
    isVariadic := isVariadic
    returns := if isConstructor then none else (t.childByField id "type").map (inner.nameOf t)
    modifiers :=
      { visible with
        isPrivate := visible.isPrivate || (owner = .enumType && isConstructor) }
    annotations := annotations
    isConstructor := isConstructor
    hasBody := hasBody
    defaultValue :=
      if kind = .annotationTypeElementDeclaration then
        (t.childByField id "value").map (elementValue t)
      else none
    node := some id }

/-- The fields of one declaration. Those of an interface are constants. -/
def fields (scope : TypeScope) (t : Tree) (owner : TypeKind) (id : Nat) : List Field :=
  let (written, annotations) := modifiers scope t id
  let all :=
    if owner.isInterface then { written with isPublic := true, isStatic := true, isFinal := true }
    else written
  let typeName := (t.childByField id "type").bind (scope.resolveNode t)
  ((t.childrenByField id "declarator").filterMap (t.childByField · "name")).map fun name =>
    { name := t.text name, typeName := typeName, modifiers := all, annotations := annotations }

def components (scope : TypeScope) (t : Tree) (record : Nat) : List Field :=
  match t.childByField record "parameters" with
  | none => []
  | some list =>
    (parameters scope t list).1.map fun p =>
      { name := p.name
        typeName := some p.typeName
        modifiers := { isPrivate := true, isFinal := true } }

def memberNodes (t : Tree) (id : Nat) : List Nat :=
  let body := if t.kind id = .classBody then some id else t.childByField id "body"
  match body with
  | none => []
  | some body =>
    (t.namedChildren body).flatMap fun c =>
      if t.kind c = .enumBodyDeclarations then t.namedChildren c else [c]

def methods (scope : TypeScope) (t : Tree) (owner : TypeKind) (id : Nat) : List Method :=
  ((memberNodes t id).filter fun m =>
    match t.kind m with
    | .methodDeclaration | .constructorDeclaration | .compactConstructorDeclaration
    | .annotationTypeElementDeclaration => true
    | _ => false).map (method scope t owner)

def allFields (scope : TypeScope) (t : Tree) (owner : TypeKind) (id : Nat) : List Field :=
  ((memberNodes t id).filter fun m =>
    t.kind m = .fieldDeclaration || t.kind m = .constantDeclaration).flatMap (fields scope t owner)

/-- Modifiers of a type, with those implied by its kind and by what stands around it. -/
def typeModifiers (t : Tree) (kind : TypeKind) (id : Nat) (written : Modifiers) : Modifiers :=
  let around := (t.ancestors id).filterMap fun a => TypeKind.ofKind? (t.kind a)
  let isNested := !around.isEmpty
  let inInterface := (around.head?.map TypeKind.isInterface).getD false
  { written with
    isAbstract := written.isAbstract || kind.isInterface
    isFinal := written.isFinal || kind = .enumType || kind = .recordType
    isStatic := written.isStatic || (isNested && kind ≠ .classType) || inInterface
    isPublic := written.isPublic || (inInterface && !written.isPrivate) }

/-- The name of the superclass, if it is known, and whether one is written that is not known. -/
def superclass (scope : TypeScope) (t : Tree) (declared : DeclaredName) : Option String × Bool :=
  match declared.kind with
  | .classType =>
    match t.childByField declared.node "superclass" with
    | some clause =>
      let resolved := (t.namedChildren clause).head?.bind (scope.resolveNode t)
      (resolved, resolved.isNone)
    | none => (if declared.name == Catalogue.object then none else some Catalogue.object, false)
  | .enumType => (some "java.lang.Enum", false)
  | .recordType => (some "java.lang.Record", false)
  | .interfaceType | .annotationType => (none, false)

def interfaces (scope : TypeScope) (t : Tree) (id : Nat) : List (Option String) :=
  let clauses := (t.children id).filter fun c =>
    t.kind c = .superInterfaces || t.kind c = .extendsInterfaces
  ((clauses.filterMap (t.childOfKind · .typeList)).flatMap t.namedChildren).map
    (scope.resolveNode t)

def namedType (scope : TypeScope) (t : Tree) (declared : DeclaredName) : TypeDecl :=
  let id := declared.node
  let (written, annotations) := modifiers scope t id
  let parameters := typeVariables t id
  let outside := scope.enterVariables parameters
  let inside := scope.enterType declared.name parameters
  let (superclass, isUnresolved) := superclass outside t declared
  let interfaces := interfaces outside t id
  { name := declared.name
    simpleName := Text.lastPart '.' declared.name
    kind := declared.kind
    modifiers := typeModifiers t declared.kind id written
    superclass := superclass
    interfaces := interfaces.filterMap (fun name => name)
    hasUnresolved := isUnresolved || interfaces.any (·.isNone)
    annotations := annotations
    methods := methods inside t declared.kind id
    fields := allFields inside t declared.kind id ++
      if declared.kind = .recordType then components inside t id else []
    typeParameters := parameters
    node := some id }

/-- What the class at `body` extends, implements, and whether that is unknown: the body stands after
the creation of an object, or after an enum constant. -/
def anonymousParents? (scope : TypeScope) (t : Tree) (declared : List DeclaredName) (body : Nat) :
    Option (String × List String × Bool) := do
  let parent ← t.parent body
  match t.kind parent with
  | .objectCreationExpression =>
    let type ← t.childByField parent "type"
    match scope.resolveNode t type with
    | some name =>
      if ((scope.index.kind? name).map TypeKind.isInterface).getD false then
        return (Catalogue.object, [name], false)
      else return (name, [], false)
    | none => return (Catalogue.object, [], true)
  | .enumConstant =>
    let around ← t.findAncestor parent (· = .enumDeclaration)
    let enum ← declared.find? fun d => d.node == around
    return (enum.name, [], false)
  | _ => none

def anonymousType? (scope : TypeScope) (t : Tree) (declared : List DeclaredName) (body : Nat) :
    Option TypeDecl := do
  let (superclass, interfaces, isUnresolved) ← anonymousParents? scope t declared body
  return {
    name := ""
    simpleName := ""
    kind := .classType
    modifiers := { isFinal := true }
    superclass := some superclass
    interfaces := interfaces
    hasUnresolved := isUnresolved
    methods := methods scope t .classType body
    fields := allFields scope t .classType body
    node := some body }

/-- The types that a node and everything below it declare, in source order, classes without a name
included; `declared` are the named types of the whole source. -/
def typesBelow (t : Tree) (declared : List DeclaredName) (scope : TypeScope) (id : Nat) :
    List TypeDecl :=
  match declared.find? fun d => d.node == id with
  | some d =>
    let type := namedType scope t d
    let inner := scope.enterType d.name type.typeParameters
    type :: (t.namedChildren id).attach.flatMap fun c => typesBelow t declared inner c.1
  | none =>
    let type := if t.kind id = .classBody then anonymousType? scope t declared id else none
    type.toList ++ (t.namedChildren id).attach.flatMap fun c => typesBelow t declared scope c.1
termination_by t.size - id
decreasing_by
  all_goals exact Tree.child_decreases (Tree.mem_node_of_mem_namedChildren c.2)

/-- The types of a source, whose named types are `declared`. The index has to know the names of all
types of the project. -/
def types (t : Tree) (header : Header) (declared : List DeclaredName) (index : Index) :
    List TypeDecl :=
  typesBelow t declared (TypeScope.ofHeader index header) Tree.root

end Declaration

end SpringLint
