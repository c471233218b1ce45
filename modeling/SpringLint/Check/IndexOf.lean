import SpringLint.Check.Finding
import SpringLint.Syntax.StringLiteral

/-! Searches for a single character. -/

namespace SpringLint.Check

def searchMethods : List String := ["indexOf", "lastIndexOf"]

def isSingleCharacter (t : Tree) (id : Nat) : Bool :=
  t.kind id = .stringLiteral &&
    match StringLiteral.value? (t.text id) with
    | some value => value.length == 1
    | none => false

/-- A search for a single character asks for a character and not for a text. -/
def characterSearches (q : Query) : List Finding :=
  q.tree.gatherAll fun id =>
    if q.tree.kind id = .methodInvocation then
      let finding : Option Finding := do
        let callee ← q.calleeOf? id
        let method ← searchMethods.find? (callee.is Catalogue.string)
        match q.tree.arguments id with
        | [argument] =>
          guard (isSingleCharacter q.tree argument)
          let name ← q.tree.childByField id "name"
          return .warning .singleCharacterStringLiteralIndexOf name [method, method]
        | _ => none
      finding.toList
    else []

end SpringLint.Check
