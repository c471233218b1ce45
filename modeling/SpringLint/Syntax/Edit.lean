import SpringLint.Syntax.Tree
import SpringLint.Text.Quoted

/-! Changes to a tree, made in batches. -/

namespace SpringLint

inductive Edit where
  /-- Drops a node together with the blanks that follow it. -/
  | remove (id : Nat)
  | append (parent : Nat) (insertion : Insertion)
  | insertAfter (anchor : Nat) (insertion : Insertion)
  | prepend (parent : Nat) (insertion : Insertion)
  | parenthesize (lambda : Nat)
  deriving DecidableEq, Repr

inductive EditError where
  | unknownNode (id : Nat)
  /-- The node was added by an edit, or stands in something removed. -/
  | notEditable (id : Nat)
  | notLambda (id : Nat)
  | rootTarget (edit : Edit)
  | noParent (id : Nat)
  | detached (id : Nat)
  deriving DecidableEq, Repr

namespace Insertion

def title : Insertion → String
  | .keyword word => "Keyword(" ++ Text.quoted word ++ ")"
  | .text content => "Text(" ++ Text.quoted content ++ ")"

end Insertion

namespace Edit

def target : Edit → Nat
  | .remove id => id
  | .append parent _ => parent
  | .insertAfter anchor _ => anchor
  | .prepend parent _ => parent
  | .parenthesize lambda => lambda

def title (edit : Edit) : String :=
  let id (n : Nat) := "NodeId(" ++ toString n ++ ")"
  let fields (name role : String) (n : Nat) (insertion : Insertion) :=
    name ++ " \x7b " ++ role ++ ": " ++ id n ++ ", insertion: " ++ insertion.title ++ " \x7d"
  match edit with
  | .remove n => "Remove(" ++ id n ++ ")"
  | .append n insertion => fields "Append" "parent" n insertion
  | .insertAfter n insertion => fields "InsertAfter" "anchor" n insertion
  | .prepend n insertion => fields "Prepend" "parent" n insertion
  | .parenthesize n => "Parenthesize(" ++ id n ++ ")"

end Edit

namespace EditError

def message : EditError → String
  | .unknownNode id => "unknown node #" ++ toString id
  | .notEditable id => "node #" ++ toString id ++ " cannot be edited"
  | .notLambda id => "node #" ++ toString id ++ " is not a lambda"
  | .rootTarget edit => "the root cannot be the target of " ++ edit.title
  | .noParent id => "node #" ++ toString id ++ " has no parent"
  | .detached id => "node #" ++ toString id ++ " is detached"

end EditError

namespace Tree

/-- Checks one edit of a batch whose earlier edits remove the nodes `removed`. -/
def validate (t : Tree) (removed : List Nat) (edit : Edit) : Except EditError Unit := do
  let id := edit.target
  unless id < t.size do throw (.unknownNode id)
  let insideRemoved := (id :: t.ancestors id).any fun a => (t.node a).removed || removed.contains a
  if insideRemoved || (t.node id).isInserted then throw (.notEditable id)
  match edit with
  | .parenthesize _ => unless t.kind id = .lambdaExpression do throw (.notLambda id)
  | .remove _ | .insertAfter _ _ => if id = root then throw (.rootTarget edit)
  | .append _ _ | .prepend _ _ => pure ()

/-- Checks the edits of a batch in turn. No edit may be about a node that an earlier edit removes,
or about anything inside it. -/
def validateAll (t : Tree) (removed : List Nat) : List Edit → Except EditError Unit
  | [] => .ok ()
  | edit :: rest => do
    t.validate removed edit
    match edit with
    | .remove id => t.validateAll (removed ++ [id]) rest
    | _ => t.validateAll removed rest

/-- Adds a node for `insertion` at the place `index` among the children of `parent`; it stands at
the offset `offset` and covers nothing. -/
def insertNode (t : Tree) (parent index offset : Nat) (insertion : Insertion) : Tree :=
  (t.addChild parent index
    { kind := .other "inserted"
      span := ⟨offset, offset⟩
      origin := .inserted insertion }).markDirty parent

def perform (t : Tree) : Edit → Except EditError Tree
  | .remove id =>
    let without := t.modify id (fun n => { n with removed := true }) (fun _ => ⟨rfl, rfl⟩)
    match t.parent id with
    | some p => .ok (without.markDirty p)
    | none => .ok without
  | .append parent insertion =>
    .ok (t.insertNode parent (t.node parent).children.length (t.span parent).stop insertion)
  | .prepend parent insertion =>
    .ok (t.insertNode parent 0 (t.span parent).start insertion)
  | .insertAfter anchor insertion =>
    match t.parent anchor with
    | none => .error (.noParent anchor)
    | some p =>
      match (t.node p).children.idxOf? anchor with
      | none => .error (.detached anchor)
      | some i => .ok (t.insertNode p (i + 1) (t.span anchor).stop insertion)
  | .parenthesize lambda =>
    let marked := t.modify lambda (fun n => { n with parenthesized := true }) (fun _ => ⟨rfl, rfl⟩)
    .ok (marked.markDirty lambda)

/-- Carries out edits in turn. An edit that fails leaves what the edits before it did. -/
def performAll (t : Tree) : List Edit → Tree × Except EditError Unit
  | [] => (t, .ok ())
  | edit :: rest =>
    match t.perform edit with
    | .ok changed => changed.performAll rest
    | .error reason => (t, .error reason)

/-- Applies a batch of edits to a tree and says how it went. All are checked before any is carried
out. -/
def apply (t : Tree) (edits : List Edit) : Tree × Except EditError Unit :=
  match t.validateAll [] edits with
  | .ok () => t.performAll edits
  | .error reason => (t, .error reason)

end Tree

end SpringLint
