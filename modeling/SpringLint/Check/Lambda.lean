import SpringLint.Check.Finding

/-! The style of lambda expressions. Those inside others are looked at too. -/

namespace SpringLint.Check

def bareParameter? (t : Tree) (lambda : Nat) : Option Nat :=
  if (t.node lambda).parenthesized then none
  else (t.childByField lambda "parameters").filter fun p => t.kind p = .identifier

/-- A lone parameter stands between parentheses. -/
def lambdaParameters (q : Query) : List Finding :=
  q.tree.gatherAll fun id =>
    if q.tree.kind id = .lambdaExpression then
      ((bareParameter? q.tree id).map fun p =>
        .warning .missingParenthesesAroundLambdaParameter p []).toList
    else []

def containsBlock (t : Tree) (statement : Nat) : Bool :=
  (t.descendants statement).any fun id => t.kind id = .block

/-- The only statement of a lambda's block, if the braces could be left out. -/
def loneStatement? (t : Tree) (lambda : Nat) : Option Nat := do
  let body ← t.childByField lambda "body"
  guard (t.kind body = .block)
  match (t.namedChildren body).filter fun c => !(t.kind c).isComment with
  | [statement] =>
    guard (t.kind statement ≠ .switchExpression && t.kind statement ≠ .throwStatement)
    guard (!containsBlock t statement)
    return statement
  | _ => none

/-- A lambda whose body is one statement is written without a block. -/
def lambdaBlocks (q : Query) : List Finding :=
  q.tree.gatherAll fun id =>
    if q.tree.kind id = .lambdaExpression then
      ((loneStatement? q.tree id).map fun statement =>
        .warning .lambdaExpressionBodyIsSingleStatementBlock statement []).toList
    else []

end SpringLint.Check
