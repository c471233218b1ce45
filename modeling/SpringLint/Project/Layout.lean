import SpringLint.Path
import SpringLint.Text.Slice

/-! Where the sources of a project stand. -/

namespace SpringLint

inductive SourceLocation where
  | main
  | test
  | generated
  | unknown
  deriving DecidableEq, Repr

namespace SourceLocation

def name : SourceLocation → String
  | .main => "main"
  | .test => "test"
  | .generated => "generated"
  | .unknown => "unknown"

end SourceLocation

structure Layout where
  root : String
  sourceRoots : List String := ["src/main/java", "src/main/resources"]
  generatedRoots : List String :=
    ["target/generated-sources/annotations", "target/generated-test-sources/test-annotations",
      "build/generated/sources/annotationProcessor/java/main"]
  deriving DecidableEq, Repr

namespace Layout

open Text

def mainRoot : String := "src/main/java"

def testRoots : List String := ["src/test/java", "src/it/java"]

def pathOf (layout : Layout) (resource : String) : String :=
  Path.join layout.root resource

def trimmedRoot (root : String) : String :=
  String.ofList (trimBoth (· == '/') root.toList)

def isRoot (folder root : String) : Bool :=
  let root := trimmedRoot root
  folder == root ||
    match beforeTail? root folder with
    | some module => module.toList.getLast? == some '/'
    | none => false

/-- The heads of a text that end before a slash, the shortest first; `done` has been read already,
the last character first. -/
def headsBefore (done : List Char) : List Char → List String
  | [] => []
  | c :: cs =>
    if c == '/' then String.ofList done.reverse :: headsBefore (c :: done) cs
    else headsBefore (c :: done) cs

def folders (resource : String) : List String :=
  (headsBefore [] resource.toList).reverse

def rootKind? (layout : Layout) (folder : String) : Option SourceLocation :=
  if isRoot folder mainRoot then some .main
  else if testRoots.any (isRoot folder) then some .test
  else if layout.generatedRoots.any (isRoot folder) then some .generated
  else none

/-- The innermost folder around a resource that is a root, and what it is for. -/
def nearestRoot? (layout : Layout) (resource : String) : Option (String × SourceLocation) :=
  (folders resource).findSome? fun folder =>
    (layout.rootKind? folder).map fun location => (folder, location)

/-- What a resource is for. The innermost root decides. -/
def classify (layout : Layout) (resource : String) : SourceLocation :=
  match layout.nearestRoot? resource with
  | some (_, location) => location
  | none => .unknown

/-- The length of the longest way to write a root that a folder is. -/
def rootLength (layout : Layout) (folder : String) : Nat :=
  (((mainRoot :: testRoots ++ layout.generatedRoots).filter (isRoot folder)).map
    String.utf8ByteSize).foldl max 0

/-- The folder of the module that holds a resource, up to and with the slash before its source root.
There is none when the root is written with more characters than stand before the resource. -/
def moduleOf? (layout : Layout) (resource : String) : Option String :=
  match layout.nearestRoot? resource with
  | none => some ""
  | some (folder, _) =>
    let length := layout.rootLength folder
    if length ≤ folder.utf8ByteSize then slice? resource 0 (folder.utf8ByteSize - length) else none

/-- Where the factories manifest of the module that holds a resource may stand. -/
def manifestPaths? (layout : Layout) (resource : String) : Option (List String) :=
  (layout.moduleOf? resource).map fun module =>
    layout.sourceRoots.map fun root =>
      [module, root, "META-INF", "spring.factories"].foldl Path.join layout.root

end Layout

end SpringLint
