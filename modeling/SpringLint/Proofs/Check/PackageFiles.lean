import SpringLint.Check.Finding
import SpringLint.Proofs.Project.Discovery
import SpringLint.Proofs.Syntax.Numbering

/-! Which packages are marked. A folder whose sources export a type is marked unless it has a package
file. On disk the file is looked up by its name, but a source counts as the package file as soon as its
resource ends in that name, so a longer name hides that the package file is missing. -/

namespace SpringLint

theorem Text.suffix_append_cons_iff {α : Type} {sep : α} {tail head rest : List α}
    (absent : sep ∉ tail) : tail <:+ head ++ sep :: rest ↔ tail <:+ rest := by
  constructor
  · intro ends
    rcases List.suffix_or_suffix_of_suffix ends (List.suffix_append head (sep :: rest)) with
      short | long
    · rcases List.suffix_cons_iff.mp short with whole | inner
      · exact absurd (whole ▸ List.mem_cons_self) absent
      · exact inner
    · exact absurd (long.subset List.mem_cons_self) absent
  · intro ends
    exact (ends.trans (List.suffix_cons sep rest)).trans (List.suffix_append head (sep :: rest))

namespace PackageInfo

variable {project : Project} {files : FileSystem} {folder name resource : String}
  {unit : SourceUnit}

/-- A source of a project stands in a folder, not deeper, under a name. -/
structure StandsIn (project : Project) (folder name : String) (unit : SourceUnit) : Prop where
  listed : unit ∈ project.units.values
  resource : unit.resource = folder ++ "/" ++ name
  direct : '/' ∉ name.toList

/-- A source that tells its package and declares, at the top, a type with one of the keywords that
let other packages see it. -/
structure Exports (unit : SourceUnit) : Prop where
  packaged : ∃ package, unit.package = some package
  visible : ∃ id ∈ unit.tree.namedChildren Tree.root, (unit.tree.kind id).isTypeDeclaration = true ∧
    ∃ list, unit.tree.childOfKind id .modifiers = some list ∧
      ∃ word ∈ unit.tree.children list,
        unit.tree.kind word = .token "public" ∨ unit.tree.kind word = .token "protected"

/-- A folder with a source that exports a type and without a package file, be it among the sources or
on disk. -/
structure Undocumented (project : Project) (files : FileSystem) (folder : String) : Prop where
  exported : ∃ name unit, StandsIn project folder name unit ∧ Exports unit
  unlisted : ∀ name unit, StandsIn project folder name unit → name ≠ fileName
  missing : files.isFile (Path.join (project.layout.pathOf folder) fileName) = false

/-- A source in the folder has a longer name that ends in that of the package file. -/
def Lookalike (project : Project) (folder : String) : Prop :=
  ∃ name unit, StandsIn project folder name unit ∧ name ≠ fileName ∧
    fileName.toList <:+ name.toList

theorem folderOf?_eq_some_iff :
    folderOf? resource = some folder ↔
      ∃ name, resource = folder ++ "/" ++ name ∧ '/' ∉ name.toList := by
  refine ⟨folderOf?_eq_some, ?_⟩
  rintro ⟨name, whole, direct⟩
  have reversed : resource.toList.reverse = name.toList.reverse ++ '/' :: folder.toList.reverse := by
    simp [whole]
  rw [folderOf?, Text.cutLast?, reversed, Text.cutList?_append (by simpa using direct)]
  simp

theorem any_standsIn_iff (holds : SourceUnit → Bool) :
    ((project.units.values.filter fun unit => folderOf? unit.resource == some folder).any holds) =
        true ↔
      ∃ name unit, StandsIn project folder name unit ∧ holds unit = true := by
  simp only [List.any_eq_true, List.mem_filter, beq_iff_eq, folderOf?_eq_some_iff]
  constructor
  · rintro ⟨unit, ⟨listed, name, resource, direct⟩, holding⟩
    exact ⟨name, unit, ⟨listed, resource, direct⟩, holding⟩
  · rintro ⟨name, unit, ⟨listed, resource, direct⟩, holding⟩
    exact ⟨unit, ⟨listed, name, resource, direct⟩, holding⟩

theorem exportsType_iff : exportsType unit = true ↔ Exports unit := by
  have keyword (id : Nat) : unit.tree.isExported id = true ↔
      ∃ list, unit.tree.childOfKind id .modifiers = some list ∧
        ∃ word ∈ unit.tree.children list,
          unit.tree.kind word = .token "public" ∨ unit.tree.kind word = .token "protected" := by
    unfold Tree.isExported Tree.hasModifier
    cases unit.tree.childOfKind id .modifiers with
    | none => simp
    | some list => simp [Tree.hasToken, and_or_left, exists_or]
  rw [exportsType, Bool.and_eq_true, Option.isSome_iff_exists]
  simp only [List.any_eq_true, Bool.and_eq_true, keyword]
  exact ⟨fun ⟨packaged, visible⟩ => ⟨packaged, visible⟩,
    fun ⟨packaged, visible⟩ => ⟨packaged, visible⟩⟩

theorem StandsIn.endsWith_iff (stands : StandsIn project folder name unit) :
    Text.endsWith fileName unit.resource = true ↔ fileName.toList <:+ name.toList := by
  have slash : '/' ∉ fileName.toList := by decide
  have whole : (folder ++ "/" ++ name).toList = folder.toList ++ '/' :: name.toList := by simp
  rw [Text.endsWith, List.isSuffixOf_iff_suffix, stands.resource, whole,
    Text.suffix_append_cons_iff slash]

theorem hasFile_iff :
    ((project.units.values.filter fun unit => folderOf? unit.resource == some folder).any
        fun unit => Text.endsWith fileName unit.resource) = true ↔
      (∃ unit, StandsIn project folder fileName unit) ∨ Lookalike project folder := by
  rw [any_standsIn_iff]
  constructor
  · rintro ⟨name, unit, stands, ends⟩
    by_cases same : name = fileName
    · exact .inl ⟨unit, same ▸ stands⟩
    · exact .inr ⟨name, unit, stands, same, stands.endsWith_iff.mp ends⟩
  · rintro (⟨unit, stands⟩ | ⟨name, unit, stands, -, ends⟩)
    · exact ⟨fileName, unit, stands, stands.endsWith_iff.mpr (List.suffix_refl _)⟩
    · exact ⟨name, unit, stands, stands.endsWith_iff.mpr ends⟩

/-- The check gives its one warning exactly if the folder exports a type and has no package file,
unless a source with a longer name is taken for the package file. -/
theorem marks_undocumented_iff (project : Project) (files : FileSystem) (folder : String) :
    (check project files folder = [.ofResource folder .missingPackageInfo .warning []] ↔
      Undocumented project files folder ∧ ¬Lookalike project folder) ∧
    (check project files folder = [] ↔
      ¬(Undocumented project files folder ∧ ¬Lookalike project folder)) := by
  have exports : ((project.units.values.filter fun unit =>
      folderOf? unit.resource == some folder).any exportsType) = true ↔
      ∃ name unit, StandsIn project folder name unit ∧ Exports unit := by
    rw [any_standsIn_iff]
    simp only [exportsType_iff]
  have decided : Undocumented project files folder ∧ ¬Lookalike project folder ↔
      (!((project.units.values.filter fun unit => folderOf? unit.resource == some folder).any
          (fun unit => Text.endsWith fileName unit.resource) ||
        files.isFile (Path.join (project.layout.pathOf folder) fileName)) &&
      (project.units.values.filter fun unit => folderOf? unit.resource == some folder).any
        exportsType) = true := by
    rw [Bool.and_eq_true, exports, Bool.not_eq_true', Bool.or_eq_false_iff, ← Bool.not_eq_true,
      hasFile_iff, not_or]
    constructor
    · rintro ⟨⟨exported, unlisted, missing⟩, plain⟩
      exact ⟨⟨⟨fun ⟨unit, stands⟩ => unlisted fileName unit stands rfl, plain⟩, missing⟩, exported⟩
    · rintro ⟨⟨⟨absent, plain⟩, missing⟩, exported⟩
      refine ⟨⟨exported, fun name unit stands same => absent ⟨unit, same ▸ stands⟩, missing⟩, plain⟩
  simp only [check]
  by_cases marked : Undocumented project files folder ∧ ¬Lookalike project folder
  · rw [if_pos (decided.mp marked)]
    exact ⟨iff_of_true rfl marked,
      iff_of_false (List.cons_ne_nil _ _) (not_not_intro marked)⟩
  · rw [if_neg (mt decided.mpr marked)]
    exact ⟨iff_of_false (List.cons_ne_nil _ _).symm marked, iff_of_true rfl marked⟩

def exportingProject (name : String) : Project :=
  let text := "package j; public class J \x7b\x7d"
  let tree : ParseTree := .node "program" true ⟨0, 28⟩ none [
    .node "package_declaration" true ⟨0, 10⟩ none [
      .token "package" 0, .leaf none "identifier" 8 9, .token ";" 9],
    .node "class_declaration" true ⟨11, 28⟩ none [
      .node "modifiers" true ⟨11, 17⟩ none [.token "public" 11],
      .token "class" 18,
      .leaf (some "name") "identifier" 24 25,
      .node "class_body" true ⟨26, 28⟩ (some "body") [.token "\x7b" 26, .token "\x7d" 27]]]
  let exporting : SourceUnit := .ofSource "src/j/J.java" (Source.ofParse text ⟨tree, false⟩)
  let beside : SourceUnit :=
    .ofSource ("src/j/" ++ name) (Source.ofParse "" ⟨.node "program" true ⟨0, 0⟩ none [], false⟩)
  (({ layout := { root := "/project" } } : Project).insertUnit exporting).insertUnit beside

example : (check (exportingProject "N.java") {} "src/j").length = 1 ∧
    check (exportingProject "package-info.java") {} "src/j" = [] ∧
    check (exportingProject "not-package-info.java") {} "src/j" = [] := by
  decide +kernel

end PackageInfo

end SpringLint
