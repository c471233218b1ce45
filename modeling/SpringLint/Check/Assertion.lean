import SpringLint.Check.Finding

/-! Assertions in tests. -/

namespace SpringLint.Check

def assertions : String := "org.assertj.core.api.Assertions"

def junitAssert : String := "org.junit.Assert"

def isReceiver (t : Tree) (call : Nat) : Bool :=
  (t.node call).field == some "object" &&
    match t.parent call with
    | some parent => t.kind parent = .methodInvocation
    | none => false

def isAssertThat (q : Query) (id : Nat) : Bool :=
  q.tree.kind id = .methodInvocation &&
    match q.calleeOf? id with
    | some callee => callee.is assertions "assertThat"
    | none => false

/-- The first `assertThat` of a statement is followed by an assertion. Nothing further in the
statement is looked at. -/
def incompleteAssertions (q : Query) : List Finding :=
  q.tree.gather fun id =>
    if q.tree.kind id = .expressionStatement then
      let finding : Option Finding := do
        let expression ← (q.tree.namedChildren id).head?
        let call ← (q.tree.descendants expression).find? (isAssertThat q)
        guard (!isReceiver q.tree call)
        return .error .incompleteUseOfAssertThat call
      (false, finding.toList)
    else (true, [])

inductive Unwanted where
  | fail
  | assertThat
  deriving DecidableEq, Repr

namespace Unwanted

def isCallee (unwanted : Unwanted) (callee : Callee) : Bool :=
  match unwanted with
  | .fail => callee.is junitAssert "fail"
  | .assertThat => callee.is assertions "assertThat"

def ofKind? : Kind → Option Unwanted
  | .tryStatement | .tryWithResourcesStatement => some .fail
  | .catchClause => some .assertThat
  | _ => none

end Unwanted

/-- Whether a method hands an exception back. Such a method has to catch it. -/
def returnsException (q : Query) (method : Nat) : Bool :=
  match (q.unit.methodAt? method).bind (·.2.returns) with
  | some type =>
    q.index.isSubtype type Catalogue.exception || q.index.isSubtype Catalogue.exception type
  | none => false

def isUnwanted (q : Query) (unwanted : Unwanted) (call : Nat) : Bool :=
  match q.calleeOf? call, q.tree.findAncestor call (· = .methodDeclaration) with
  | some callee, some method => !returnsException q method && unwanted.isCallee callee
  | _, _ => false

structure HandlerWalk where
  handlers : List Unwanted := []
  found : List Finding := []

/-- An expected exception is asserted as such and not by failing after the call and asserting in the
handler. -/
def exceptionAssertions (q : Query) : List Finding :=
  let visitor : Visitor HandlerWalk :=
    { visit := fun id w =>
        match Unwanted.ofKind? (q.tree.kind id) with
        | some unwanted => (true, { w with handlers := unwanted :: w.handlers })
        | none =>
          match q.tree.kind id, w.handlers with
          | .methodInvocation, unwanted :: _ =>
            if isUnwanted q unwanted id then
              (true, { w with
                found := w.found ++
                  [.warning .assertjExceptionAssertionSupportNotUsed id []] })
            else (true, w)
          | _, _ => (true, w)
      leave := fun id w =>
        match Unwanted.ofKind? (q.tree.kind id) with
        | some _ => { w with handlers := w.handlers.tail }
        | none => w }
  (q.tree.walk visitor Tree.root {}).found

end SpringLint.Check
