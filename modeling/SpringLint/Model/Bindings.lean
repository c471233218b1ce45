import SpringLint.Model.Expression
import SpringLint.Syntax.Walk

/-! What the nodes of a source stand for. A walk through the tree keeps the declarations in force at
each node; what cannot be told is left open. -/

namespace SpringLint

structure BindingWalk extends Environment where
  generics : List Nat := []
  calls : Calls
  bindings : NodeMap Binding

namespace BindingWalk

def isReference (t : Tree) (id : Nat) : Bool :=
  let n := t.node id
  let isName := match n.field with
    | some "name" | some "field" | some "key" | some "parameters" | some "label" => true
    | _ => false
  if isName then false
  else
    match n.parent with
    | none => false
    | some parent =>
      match t.kind parent with
      | .scopedIdentifier | .packageDeclaration | .importDeclaration | .inferredParameters
      | .labeledStatement | .breakStatement | .continueStatement => false
      | .methodReference => (t.namedChildren parent).head? == some id
      | kind => (TypeKind.ofKind? kind).isNone

def bind (w : BindingWalk) (id : Nat) (binding : Binding) : BindingWalk :=
  { w with bindings := w.bindings.set id binding }

def openFrame (w : BindingWalk) (frame : Frame) : BindingWalk :=
  { w with frames := frame :: w.frames }

def declare (t : Tree) (w : BindingWalk) (name : Nat) (type : Option String) : BindingWalk :=
  { w with
    variableTypes := w.variableTypes.set name type
    frames :=
      match w.frames with
      | [] => []
      | frame :: rest =>
        { frame with named := (t.text name, some name) :: frame.named } :: rest }

/-- The declared type of a variable. The type `var` stands for that of the value. -/
def declaredType (t : Tree) (w : BindingWalk) (type value : Option Nat) :
    Option String × BindingWalk :=
  match type with
  | none => (none, w)
  | some type =>
    if t.text type == "var" then
      match value with
      | none => (none, w)
      | some value =>
        let (found, calls) := w.typeOf t w.calls value
        (found, { w with calls := calls })
    else (w.types.resolveNode t type, w)

def declareNamed (t : Tree) (w : BindingWalk) (id : Nat) : BindingWalk :=
  match t.childByField id "name" with
  | none => w
  | some name =>
    let (type, w) := declaredType t w (t.childByField id "type") none
    declare t w name type

def declareVariable (t : Tree) (w : BindingWalk) (id : Nat) : BindingWalk :=
  match t.parent id, t.childByField id "name" with
  | some parent, some name =>
    match t.kind parent with
    | .fieldDeclaration | .constantDeclaration => w
    | .spreadParameter =>
      let element := (Declaration.spreadType? t parent).bind (w.types.resolveNode t)
      declare t w name (element.map (· ++ "[]"))
    | _ =>
      let (type, w) := declaredType t w (t.childByField parent "type") (t.childByField id "value")
      declare t w name type
  | _, _ => w

def declareLambda (t : Tree) (w : BindingWalk) (id : Nat) : BindingWalk :=
  match t.childByField id "parameters" with
  | none => w
  | some list =>
    match t.kind list with
    | .identifier => declare t w list none
    | .inferredParameters =>
      (t.childrenOfKind list .identifier).foldl (fun w name => declare t w name none) w
    | _ => w

/-- Declares the exception that a handler catches; the first of several types is taken. -/
def declareCaught (t : Tree) (w : BindingWalk) (id : Nat) : BindingWalk :=
  match t.childByField id "name" with
  | none => w
  | some name =>
    let type := do
      let caught ← t.childOfKind id .catchType
      w.types.resolveNode t (← (t.namedChildren caught).head?)
    declare t w name type

def methodVariables (t : Tree) (id : Nat) : List String :=
  match t.childOfKind id .typeParameters with
  | none => []
  | some list =>
    (t.childrenOfKind list .typeParameter).filterMap fun entry =>
      (t.namedChildren entry).head?.map t.text

def enterMethod (t : Tree) (w : BindingWalk) (id : Nat) : BindingWalk :=
  { w with
    frames := { owner := id } :: w.frames
    types := w.types.enterVariables (methodVariables t id)
    generics := id :: w.generics }

def enterType (w : BindingWalk) (id : Nat) (d : TypeDecl) : BindingWalk :=
  let w := { w with
    enclosing := (id, d) :: w.enclosing
    frames := { owner := id, named := d.fields.map fun f => (f.name, none) } :: w.frames }
  if d.isAnonymous then w
  else
    { w with types := w.types.enterType d.name d.typeParameters }.bind id (.type d.name)

def bindUse (t : Tree) (w : BindingWalk) (id : Nat) : BindingWalk :=
  match (t.childByField id "name").bind fun name => w.types.resolve (t.text name) with
  | some type => w.bind id (.type type)
  | none => w

def bindLink (t : Tree) (w : BindingWalk) (id : Nat) : BindingWalk :=
  let text := t.text id
  if Text.hasChar '#' text then w
  else
    match w.types.resolve text with
    | some type => if w.types.index.contains type then w.bind id (.type type) else w
    | none => w

def bindName (t : Tree) (w : BindingWalk) (id : Nat) : BindingWalk :=
  if isReference t id then
    match w.lookup? (t.text id) with
    | some (some declaration) => w.bind id (.variable declaration)
    | _ => w
  else w

def visit (t : Tree) (types : List TypeDecl) (id : Nat) (w : BindingWalk) : BindingWalk :=
  match types.find? fun d => d.node == some id with
  | some d => w.enterType id d
  | none =>
    match t.kind id with
    | .methodDeclaration | .constructorDeclaration | .compactConstructorDeclaration =>
      enterMethod t w id
    | .lambdaExpression => declareLambda t (w.openFrame { owner := id }) id
    | .block | .constructorBody | .catchClause | .forStatement | .tryWithResourcesStatement
    | .switchBlockStatementGroup | .switchRule => w.openFrame { owner := id }
    | .enhancedForStatement => declareNamed t (w.openFrame { owner := id }) id
    | .formalParameter | .resource | .instanceofExpression => declareNamed t w id
    | .catchFormalParameter => declareCaught t w id
    | .variableDeclarator => declareVariable t w id
    | .annotationUse | .bareAnnotationUse => bindUse t w id
    | .javadocReference => bindLink t w id
    | .identifier => bindName t w id
    | .methodInvocation => { w with calls := (w.calleeOf t w.calls id).2 }
    | _ => w

/-- Takes account of a node after what is below it: what it opened is closed. -/
def leave (id : Nat) (w : BindingWalk) : BindingWalk :=
  let w :=
    if (w.frames.head?.map (·.owner)) == some id then { w with frames := w.frames.tail } else w
  let w :=
    if w.generics.head? == some id then
      { w with generics := w.generics.tail, types := w.types.leaveVariables }
    else w
  match w.enclosing.head? with
  | some (owner, d) =>
    if owner == id then
      { w with
        enclosing := w.enclosing.tail
        types := if d.isAnonymous then w.types else w.types.leaveType }
    else w
  | none => w

def visitor (t : Tree) (types : List TypeDecl) : Visitor BindingWalk where
  visit := fun id w => (true, visit t types id w)
  leave := leave

def result (w : BindingWalk) : NodeMap Binding :=
  w.calls.toList.foldl
    (fun bindings (id, callee) =>
      match callee with
      | some callee => bindings.set id (.method callee)
      | none => bindings)
    w.bindings

end BindingWalk

namespace Bindings

def ofTree (t : Tree) (header : Header) (types : List TypeDecl) (index : Index) :
    NodeMap Binding :=
  let start : BindingWalk :=
    { types := TypeScope.ofHeader index header
      variableTypes := NodeMap.sized t.size
      calls := NodeMap.sized t.size
      bindings := NodeMap.sized t.size }
  (t.walk (BindingWalk.visitor t types) Tree.root start).result

end Bindings

end SpringLint
