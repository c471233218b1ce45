import SpringLint.Json.Reader
import SpringLint.Syntax.ParseTree

/-! Parse trees as JSON listings. A listing gives the nodes of a tree, each before its children, as
arrays of kind, start, stop, field and number of children. The kind of a token is its text after an
apostrophe; an empty field and a number of zero may be left out. -/

namespace SpringLint

namespace ParseTree

def rowOfJson? : Json → Option Row
  | .array (.string kind :: .nat start :: .nat stop :: rest) =>
    let (name, isNamed) := match kind.toList with
      | '\'' :: text => (String.ofList text, false)
      | _ => (kind, true)
    let row (field : String) (children : Nat) : Row :=
      { kind := name
        named := isNamed
        span := ⟨start, stop⟩
        field := if field == "" then none else some field
        children := children }
    match rest with
    | [] => some (row "" 0)
    | [.string field] => some (row field 0)
    | [.string field, .nat children] => some (row field children)
    | _ => none
  | _ => none

end ParseTree

namespace Parse

/-- Reads what a grammar says of a text: the text, whether it breaks the grammar, and its nodes. -/
def ofJson? (value : Json) : Option (String × Parse) := do
  let .string source ← value.get? "source" | none
  let .bool hasErrors ← value.get? "has_errors" | none
  let .array nodes ← value.get? "nodes" | none
  let tree ← ParseTree.ofRows? (← nodes.mapM ParseTree.rowOfJson?)
  return (source, { tree := tree, hasErrors := hasErrors })

end Parse

namespace Grammar

def ofPairs (pairs : List (String × Parse)) : Grammar :=
  fun text => pairs.lookup text

def ofJson? : Json → Option Grammar
  | .array items => (items.mapM Parse.ofJson?).map ofPairs
  | _ => none

end Grammar

end SpringLint
