import SpringLint.Syntax.Tree

/-! The text of an edited tree. What no edit has touched is copied from the source; a node on the
way to an edit is put together from its children and the source text between them. -/

namespace SpringLint

inductive Piece where
  | keyword (word : String)
  | text (content : String) (offset : Nat)
  | removed (span : Span)
  | kept (span : Span) (printed : String)
  deriving DecidableEq, Repr

namespace Piece

def isRemoved : Piece → Bool
  | .removed _ => true
  | _ => false

end Piece

structure Progress where
  out : String := ""
  cursor : Nat
  emitted : Bool := false
  /-- The text before the gap that was kept ahead of a removed child, as long as nothing has
  followed the gap. -/
  beforeGap : Option String := none
  deriving DecidableEq, Repr

namespace Progress

/-- Adds a child; `more` says whether a child that is not removed follows, and `stop` is where the
parent ends. There is no result when the source text ahead of the child cannot be cut out. -/
def add (source : String) (stop : Nat) (p : Progress) (more : Bool) : Piece → Option Progress
  | .keyword word =>
    let before := if p.emitted && p.beforeGap.isNone then " " else ""
    let after := if !p.emitted && more then " " else ""
    some { p with
      out := p.out ++ before ++ word ++ after
      emitted := true
      beforeGap := if p.emitted then none else p.beforeGap }
  | .text content offset => do
    let ahead ← Text.slice? source p.cursor (max offset p.cursor)
    some { out := p.out ++ ahead ++ content, cursor := max p.cursor offset, emitted := true }
  | .removed span =>
    let cursor := Text.skipBlankBytes source span.stop stop
    if p.emitted && p.beforeGap.isNone then do
      let ahead ← Text.slice? source p.cursor span.start
      some { p with out := p.out ++ ahead, cursor := cursor, beforeGap := some p.out }
    else some { p with cursor := cursor }
  | .kept span printed => do
    let ahead ← Text.slice? source p.cursor span.start
    some { out := p.out ++ ahead ++ printed, cursor := span.stop, emitted := true }

def addAll (source : String) (stop : Nat) : Progress → List Piece → Option Progress
  | p, [] => some p
  | p, piece :: rest => do
    let more := rest.any fun later => !later.isRemoved
    (← p.add source stop more piece).addAll source stop rest

/-- The whole text: a gap that nothing followed is dropped at the parent's end. -/
def finish (source : String) (stop : Nat) (p : Progress) : Option String := do
  let rest ← Text.slice? source p.cursor stop
  match p.beforeGap with
  | some earlier => some ((if stop ≤ p.cursor then earlier else p.out) ++ rest)
  | none => some (p.out ++ rest)

end Progress

namespace Tree

def assemble (source : String) (span : Span) (pieces : List Piece) : Option String := do
  (← ({ cursor := span.start } : Progress).addAll source span.stop pieces).finish source span.stop

/-- Whether a child is the parameter that edits have put parentheses around. -/
def isWrapped (parent child : Node) : Bool :=
  parent.kind = .lambdaExpression && parent.parenthesized && child.field == some "parameters" &&
    child.kind = .identifier

def pieceOf (parent child : Node) (printed : Unit → Option String) : Option Piece :=
  match child.origin with
  | .inserted (.keyword word) => some (.keyword word)
  | .inserted (.text content) => some (.text content child.span.start)
  | .parsed =>
    if child.removed then some (.removed child.span)
    else do
      let text ← printed ()
      some (.kept child.span (if isWrapped parent child then "(" ++ text ++ ")" else text))

/-- The text of a node. There is none when spans do not nest. -/
def render (t : Tree) (id : Nat) : Option String :=
  let n := t.node id
  if n.dirty then do
    let pieces ← (t.node id).children.attach.mapM fun c =>
      pieceOf n (t.node c.1) fun _ => t.render c.1
    assemble t.source n.span pieces
  else if n.isInserted then some "" else Text.slice? t.source n.span.start n.span.stop
termination_by t.size - id
decreasing_by exact child_decreases c.2

/-- The text of the tree, with what stands in the source before and after its root. -/
def print (t : Tree) : Option String := do
  let span := t.span root
  let before ← Text.slice? t.source 0 span.start
  let body ← t.render root
  let after ← Text.slice? t.source span.stop t.source.utf8ByteSize
  some (before ++ body ++ after)

end Tree

end SpringLint
