import SpringLint.Check.Finding

/-! Methods that make beans, and the configuration classes that should hold them. -/

namespace SpringLint.Check

def bean : String := "org.springframework.context.annotation.Bean"

def managementConfiguration : String :=
  "org.springframework.boot.actuate.autoconfigure.web.ManagementContextConfiguration"

def proxyElement : String := "proxyBeanMethods"

/-- A class that inherits bean methods is a configuration class itself. -/
def inheritedBeans (q : Query) (id : Nat) : List Finding :=
  match q.unit.typeAt? id with
  | none => []
  | some d =>
    let inherits := (q.index.superclasses d).any fun s => s.methods.any (·.carries bean)
    if inherits && !q.carries id Catalogue.configuration then
      let anchor := do
        let clause ← q.tree.childByField id "superclass"
        (q.tree.namedChildren clause).find? fun c => !(q.tree.kind c).isComment
      (anchor.map fun node =>
        .warning .nonConfigurationClassHasInheritedBeanMethods node []).toList
    else []

/-- A class that declares bean methods is a configuration class. -/
def declaredBean (q : Query) (id : Nat) : List Finding :=
  let finding : Option Finding := do
    let use ← q.findUse? id bean
    let owner ← q.tree.findAncestor id fun (kind : Kind) =>
      kind = .classDeclaration || kind = .interfaceDeclaration
    let d ← q.unit.typeAt? owner
    guard (!d.kind.isInterface && !d.modifiers.isAbstract)
    guard (!q.carries owner Catalogue.configuration)
    return .warning .beanMethodOnNonConfigurationClass use []
  finding.toList

def beanConfiguration (q : Query) : List Finding :=
  q.tree.gatherAll fun id =>
    match q.tree.kind id with
    | .classDeclaration => inheritedBeans q id
    | .methodDeclaration => declaredBean q id
    | _ => []

def isConfigurationType (index : Index) (name : String) : Bool :=
  name == Catalogue.configuration || name == managementConfiguration ||
    match index.get? name with
    | some d => index.carries d Catalogue.configuration
    | none => false

/-- What the configuration annotations on a type say about proxying; without a word it is on. -/
def proxyFlags (index : Index) (d : TypeDecl) : List Bool :=
  (d.annotations.filter fun use =>
    use.isResolved && isConfigurationType index use.typeName).map fun use =>
      (((use.value? proxyElement).bind (·.bool?)) <|>
        index.elementDefault? use.typeName proxyElement).getD true

/-- Whether an annotation on a type, or on one of at most `steps` superclasses, switches proxying
on. -/
def isProxiedWithin (index : Index) (steps : Nat) (d : TypeDecl) : Bool :=
  (proxyFlags index d).any (fun flag => flag) ||
    match steps with
    | 0 => false
    | steps + 1 =>
      match d.superclass.bind index.get? with
      | some superclass => isProxiedWithin index steps superclass
      | none => false

/-- Whether calls of the bean methods of a type go through the container. No chain of superclasses
without a repetition is longer than the index. -/
def isProxied (index : Index) (d : TypeDecl) : Bool :=
  isProxiedWithin index index.size d

/-- A class does not switch proxying off when its superclass has it on. -/
def mismatchedProxying (q : Query) (id : Nat) : List Finding :=
  let finding : Option Finding := do
    let d ← q.unit.typeAt? id
    let superclass ← d.superclass.bind q.index.get?
    guard (isProxied q.index superclass)
    let use ← (q.annotations id).find? fun use =>
      match q.typeOf? use with
      | some name => isConfigurationType q.index name
      | none => false
    guard (!(q.elementBool? use proxyElement).getD true)
    return .error .mismatchedBeanMethodProxying use
  finding.toList

/-- A direct call of a bean method makes a new object unless the container takes part in it. -/
def unproxiedCall (q : Query) (id : Nat) : List Finding :=
  match q.calleeOf? id with
  | none => []
  | some callee =>
    let isProxied := match q.index.get? callee.declaringType with
      | some d => isProxied q.index d
      | none => false
    if callee.annotations.contains bean && !isProxied then
      [.error .invocationOfUnproxiedBeanMethod id]
    else []

def beanProxying (q : Query) : List Finding :=
  q.tree.gatherAll fun id =>
    match q.tree.kind id with
    | .classDeclaration => mismatchedProxying q id
    | .methodInvocation => unproxiedCall q id
    | _ => []

end SpringLint.Check
