import SpringLint.Check.Injection
import SpringLint.Syntax.Edit

/-! Injected fields become parameters of a constructor. -/

namespace SpringLint.ConstructorInjection

def objectProvider : String := "org.springframework.beans.factory.ObjectProvider"

structure InjectedField where
  declaration : Nat
  mark : Nat
  name : String
  typeText : String
  isOptional : Bool
  deriving DecidableEq, Repr

namespace InjectedField

/-- The parameter for the field. One that is optional is taken through a provider. -/
def parameter (f : InjectedField) : String :=
  if f.isOptional then "ObjectProvider<" ++ f.typeText ++ "> " ++ f.name ++ "Provider"
  else f.typeText ++ " " ++ f.name

def assignment (f : InjectedField) : String :=
  if f.isOptional then "this." ++ f.name ++ " = " ++ f.name ++ "Provider.getIfAvailable();"
  else "this." ++ f.name ++ " = " ++ f.name ++ ";"

end InjectedField

def injectedField? (q : Query) (declaration : Nat) : Option InjectedField := do
  let t := q.tree
  let use ← q.findUse? declaration Check.autowired
  let declarator ← t.childByField declaration "declarator"
  let name ← t.childByField declarator "name"
  let type ← t.childByField declaration "type"
  return {
    declaration := declaration
    mark := use
    name := t.text name
    typeText := t.text type
    isOptional := ((q.elementValue? use "required").bind (·.bool?)) == some false }

/-- Drops the annotation of a field and makes the field final. An annotation that stands alone takes
the whole list of modifiers with it, so that no line break is left before the type. -/
def makeFinal? (t : Tree) (f : InjectedField) : Option (List Edit) := do
  let list ← t.childOfKind f.declaration .modifiers
  let hasOthers := (t.children list).any fun c => c != f.mark && !(t.kind c).isComment
  if hasOthers then
    return .remove f.mark ::
      if t.hasModifier f.declaration "final" then [] else [.append list (.keyword "final")]
  else return [.remove list, .prepend f.declaration (.keyword "final")]

/-- The blanks before a node that stands first on its line; four spaces for any other. -/
def indentation (t : Tree) (id : Nat) : String :=
  let start := (t.span id).start
  let before := Text.slice t.source ⟨t.lineStart start, start⟩
  if before.toList.all Text.isBlank then before else "    "

def constructorText (className indent : String) (fields : List InjectedField) : String :=
  let step := if Text.hasChar '\t' indent then "\t" else "    "
  "\n\n" ++ indent ++ "public " ++ className ++ "("
    ++ Text.joinWith ", " (fields.map (·.parameter)) ++ ") \x7b\n"
    ++ String.join (fields.map fun f => indent ++ step ++ f.assignment ++ "\n")
    ++ indent ++ "\x7d"

/-- Whether a source can name the provider without a new import. -/
def importsProvider (imports : Imports) : Bool :=
  imports.single.contains objectProvider ||
    imports.onDemand.contains "org.springframework.beans.factory"

/-- Imports the provider: after the last import, else after the package declaration, else at the
top. -/
def importEdit (t : Tree) : Edit :=
  let statement := "import " ++ objectProvider ++ ";"
  match ((t.namedChildren Tree.root).filter fun id => t.kind id = .importDeclaration).getLast? with
  | some anchor => .insertAfter anchor (.text ("\n" ++ statement))
  | none =>
    match t.childOfKind Tree.root .packageDeclaration with
    | some anchor => .insertAfter anchor (.text ("\n\n" ++ statement))
    | none => .prepend Tree.root (.text (statement ++ "\n\n"))

/-- The edits that turn the injected fields of the class at or around a node into parameters of a
new constructor, which stands after the last field. -/
def plan? (q : Query) (marked : Nat) : Option (List Edit) := do
  let t := q.tree
  let type ←
    if t.kind marked = .classDeclaration then some marked
    else t.findAncestor marked (· = .classDeclaration)
  let name ← t.childByField type "name"
  let declarations := (t.members type).filter fun m => t.kind m = .fieldDeclaration
  let last ← declarations.getLast?
  let fields := declarations.filterMap (injectedField? q)
  guard (!fields.isEmpty)
  let finals ← fields.mapM (makeFinal? t)
  let constructor := constructorText (t.text name) (indentation t last) fields
  let needsImport := fields.any (·.isOptional) && !importsProvider q.unit.header.imports
  return finals.flatten ++ [.insertAfter last (.text constructor)] ++
    if needsImport then [importEdit t] else []

end SpringLint.ConstructorInjection
