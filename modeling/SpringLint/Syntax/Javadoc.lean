import SpringLint.Syntax.Tree
import SpringLint.Text.Split

/-! Links in documentation comments. A link is written as an opening brace, `@link`, blanks, the
linked name, possibly a label, and a closing brace. -/

namespace SpringLint.Javadoc

open Text

structure Link where
  span : Span
  reference : Span
  label : Option Span
  deriving DecidableEq, Repr

def byteLength : List Char → Nat
  | [] => 0
  | c :: cs => c.utf8Size + byteLength cs

def opening : List Char := "\x7b@link".toList

def closing : Char := '\x7d'

def isNameChar (c : Char) : Bool :=
  !isBlank c && c != closing

def isMargin (c : Char) : Bool :=
  isBlank c || c == '*'

/-- The place of a label without what stands around it, unless nothing is left. What is left is
looked for in the label to find out where it stands. -/
def labelSpan (start : Nat) (label : List Char) : Option Span := do
  let trimmed := trimBoth isMargin label
  guard (!trimmed.isEmpty)
  let ahead ← indexOfList? trimmed label
  let first := start + byteLength (label.take ahead)
  return ⟨first, first + byteLength trimmed⟩

/-- The link at the head of a text that stands at `pos`, and its number of characters. -/
def linkAt? (pos : Nat) (cs : List Char) : Option (Link × Nat) := do
  let afterOpening ← listAfter? opening cs
  let blanks := afterOpening.takeWhile isBlank
  let named := afterOpening.dropWhile isBlank
  let name := named.takeWhile isNameChar
  let tail := named.dropWhile isNameChar
  let label := tail.takeWhile (· != closing)
  guard (!blanks.isEmpty && !name.isEmpty && tail.any (· == closing))
  let nameStart := pos + byteLength opening + byteLength blanks
  let nameStop := nameStart + byteLength name
  return (
    { span := ⟨pos, nameStop + byteLength label + 1⟩
      reference := ⟨nameStart, nameStop⟩
      label := labelSpan nameStop label },
    opening.length + blanks.length + name.length + label.length + 1)

/-- The links of a text that stands at `pos`, of which the first `skip` characters belong to the
link before. -/
def linksFrom (skip pos : Nat) : List Char → List Link
  | [] => []
  | c :: cs =>
    match skip with
    | skip + 1 => linksFrom skip (pos + c.utf8Size) cs
    | 0 =>
      match linkAt? pos (c :: cs) with
      | some (link, length) => link :: linksFrom (length - 1) (pos + c.utf8Size) cs
      | none => linksFrom 0 (pos + c.utf8Size) cs

def isDocumentation (text : String) : Bool :=
  startsWith "/**" text && text != "/**/"

def addLink (comment : Nat) (t : Tree) (link : Link) : Tree :=
  let id := t.size
  let named := (t.appendChild comment { kind := .javadocLink, span := link.span }).appendChild id
    { kind := .javadocReference, span := link.reference, field := some "name" }
  match link.label with
  | some span => named.appendChild id { kind := .javadocText, span := span, field := some "text" }
  | none => named

def readComment (t : Tree) (comment : Nat) : Tree :=
  let links := linksFrom 0 (t.span comment).start (t.text comment).toList
  links.foldl (addLink comment)
    (t.modify comment (fun n => { n with kind := .javadoc }) (fun _ => ⟨rfl, rfl⟩))

def read (t : Tree) : Tree :=
  ((List.range t.size).filter fun id =>
    t.kind id = .blockComment && isDocumentation (t.text id)).foldl readComment t

end SpringLint.Javadoc
