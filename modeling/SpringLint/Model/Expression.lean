import SpringLint.Model.Declaration
import SpringLint.Syntax.NodeMap

/-! The types of expressions and the methods that calls are about, as far as they can be told. -/

namespace SpringLint

structure Frame where
  owner : Nat
  /-- Names and the nodes that declare them, the latest first. A field has no node and hides
  variables declared outside the type. -/
  named : List (String × Option Nat) := []

/-- What decides the meaning of an expression at one place of a source. -/
structure Environment where
  types : TypeScope
  frames : List Frame := []
  enclosing : List (Nat × TypeDecl) := []
  variableTypes : NodeMap (Option String)

/-- The calls looked at so far, and the method of each if it can be told. -/
abbrev Calls := NodeMap (Option Callee)

namespace Environment

/-- The declaration that a simple name refers to: a local variable with its node, or a field. -/
def lookup? (env : Environment) (name : String) : Option (Option Nat) :=
  env.frames.findSome? fun frame => frame.named.lookup name

/-- The type of a field of a type or of the nearest of its supertypes that has it. -/
def fieldType? (index : Index) (d : TypeDecl) (name : String) : Option String :=
  match d.field? name with
  | some field => field.typeName
  | none => ((index.supertypes d).findSome? (·.field? name)).bind (·.typeName)

def nameType? (env : Environment) (name : String) : Option String :=
  match env.lookup? name with
  | some (some declaration) => (env.variableTypes.get? declaration).join
  | _ => env.enclosing.findSome? fun (_, d) => fieldType? env.types.index d name

def thisType? (env : Environment) : Option String := do
  let (_, d) ← env.enclosing.head?
  if d.isAnonymous then d.interfaces.head? <|> d.superclass else some d.name

/-- The first method of a type that has the name and takes so many arguments. -/
def ownMethod? (d : TypeDecl) (name : String) (arity : Nat) : Option Callee :=
  (d.methods.find? fun m => !m.isConstructor && m.name == name && m.accepts arity).map
    (Callee.ofMethod d.name)

def method? (index : Index) (d : TypeDecl) (name : String) (arity : Nat) : Option Callee :=
  (d :: index.supertypes d).findSome? (ownMethod? · name arity)

/-- The method that a static import of a single member makes available; there may be none in spite
of the import. -/
def importedMethod? (env : Environment) (name : String) (arity : Nat) : Option (Option Callee) :=
  env.types.imports.staticSingle.findSome? fun path => do
    let (type, member) ← Text.cutLast? '.' path
    guard (member == name)
    match env.types.index.get? type with
    | some d => some (method? env.types.index d name arity)
    | none => some (some { declaringType := type, name := name })

/-- The method that a call without a receiver is about: one of the types around it, else an imported
one. -/
def localMethod? (env : Environment) (name : String) (arity : Nat) : Option Callee :=
  let index := env.types.index
  match env.enclosing.findSome? fun (_, d) => method? index d name arity with
  | some callee => some callee
  | none =>
    match env.importedMethod? name arity with
    | some callee => callee
    | none =>
      env.types.imports.staticOnDemand.findSome? fun type => do
        let callee ← method? index (← index.get? type) name arity
        guard callee.isStatic
        return callee

def arity (t : Tree) (id : Nat) : Nat :=
  match t.childByField id "arguments" with
  | some list => ((t.namedChildren list).filter fun c => !(t.kind c).isComment).length
  | none => 0

mutual

def typeOf (env : Environment) (t : Tree) (calls : Calls) (id : Nat) : Option String × Calls :=
  match t.kind id with
  | .identifier => (env.nameType? (t.text id), calls)
  | .thisExpression => (env.thisType?, calls)
  | .superExpression => (env.enclosing.head?.bind (·.2.superclass), calls)
  | .stringLiteral | .other "text_block" => (some Catalogue.string, calls)
  | .methodInvocation =>
    let (callee, calls) := env.calleeOf t calls id
    let returns := callee.bind (·.returns)
    (returns.filter fun name => Text.hasChar '.' name || env.types.index.contains name, calls)
  | .castExpression | .objectCreationExpression =>
    ((t.childByField id "type").bind (env.types.resolveNode t), calls)
  | .parenthesizedExpression =>
    match _found : (t.namedChildren id).head? with
    | some inner => env.typeOf t calls inner
    | none => (none, calls)
  | .fieldAccess =>
    match _found : t.childByField id "object", t.childByField id "field" with
    | some object, some field =>
      match env.typeOf t calls object with
      | (some owner, calls) =>
        let d := env.types.index.get? owner
        (d.bind fun d => fieldType? env.types.index d (t.text field), calls)
      | (none, calls) => (env.types.resolve (Text.compact (t.text id)), calls)
    | _, _ => (none, calls)
  | _ => (none, calls)
termination_by 2 * (t.size - id) + 1
decreasing_by
  · omega
  · have := Tree.child_decreases (Tree.mem_node_of_mem_namedChildren (List.mem_of_head? _found))
    omega
  · have := Tree.child_decreases (Tree.mem_node_of_childByField _found)
    omega

def calleeOf (env : Environment) (t : Tree) (calls : Calls) (id : Nat) : Option Callee × Calls :=
  match calls.get? id with
  | some callee => (callee, calls)
  | none =>
    match t.childByField id "name" with
    | none => (none, calls.set id none)
    | some nameNode =>
      let name := t.text nameNode
      match _found : t.childByField id "object" with
      | some object =>
        let (type, calls) := env.typeOf t calls object
        let text := t.text object
        let named :=
          if t.kind object = .identifier && (env.lookup? text).isNone then env.types.resolve text
          else none
        let callee := do
          let d ← env.types.index.get? (← type <|> named)
          method? env.types.index d name (arity t id)
        (callee, calls.set id callee)
      | none =>
        let callee := env.localMethod? name (arity t id)
        (callee, calls.set id callee)
termination_by 2 * (t.size - id)
decreasing_by
  have := Tree.child_decreases (Tree.mem_node_of_childByField _found)
  omega

end

end Environment

end SpringLint
