import SpringLint.Marker.Basic

/-! Packages without a documented package file. -/

namespace SpringLint.PackageInfo

def fileName : String := "package-info.java"

def folderOf? (resource : String) : Option String :=
  (Text.cutLast? '/' resource).map (·.1)

def folders (layout : Layout) (resources : List String) : List String :=
  (Table.ofList (((resources.filter fun r => layout.classify r = .main).filterMap folderOf?).map
    fun folder => (folder, ()))).names

def exportsType (unit : SourceUnit) : Bool :=
  unit.package.isSome &&
    (unit.tree.namedChildren Tree.root).any fun id =>
      (unit.tree.kind id).isTypeDeclaration && unit.tree.isExported id

/-- The markers of a folder: a package that other packages can use has a package file. -/
def check (project : Project) (files : FileSystem) (folder : String) : List Marker :=
  let units := project.units.values.filter fun unit => folderOf? unit.resource == some folder
  let hasFile := units.any (fun unit => Text.endsWith fileName unit.resource) ||
    files.isFile (Path.join (project.layout.pathOf folder) fileName)
  if !hasFile && units.any exportsType then
    [.ofResource folder .missingPackageInfo .warning []]
  else []

end SpringLint.PackageInfo
