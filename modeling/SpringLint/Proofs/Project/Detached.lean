import SpringLint.Proofs.Project.Linking

/-! Private copies of the sources of a linked project. A copy is told with the finished index, the
source itself with the names alone, so the two can differ only where a name stands for a member type
that is inherited: names alone have no supertypes. -/

namespace SpringLint

/-- No declared type has a member type by inheritance alone whose name the source uses. -/
def SourceUnit.Plain (unit : SourceUnit) (index : Index) : Prop :=
  ∀ d ∈ unit.names, ∀ id written, unit.tree.typeUse? id = some written →
    ¬index.Inherits d.name (TypeScope.simpleName written)

namespace Project

variable {project : Project} {grammar : Grammar} {resource : String} {unit : SourceUnit}

theorem detached_relink (parsed : project.Parsed grammar)
    (known : project.relink.unit? resource = some unit) :
    project.relink.detached grammar resource unit.tree.source =
      .ok (unit.link (unit.declare project.relink.index) project.relink.index) := by
  obtain ⟨source, made, same⟩ := parsed.relink _ (Table.mem_of_get? known)
  have text : project.relink.parseUnit grammar resource unit.tree.source = .ok unit.parsed := by
    rw [parseUnit, made]
    exact congrArg Except.ok same.symm
  rw [detached, text]
  rfl

theorem declare_relink (parsed : project.Parsed grammar) (names : unit.Plain project.nameIndexOf)
    (types : unit.Plain project.relink.index) :
    unit.declare project.relink.index = unit.declare project.nameIndexOf := by
  have alike : project.relink.index.Alike project.nameIndexOf unit.tree
      (unit.names.map (·.name)) := by
    refine ⟨kind?_relink parsed, ?_, ?_⟩
    · intro outer member id written used
      obtain ⟨d, listed, rfl⟩ := List.mem_map.mp member
      exact types d listed id written used
    · intro outer member id written used
      obtain ⟨d, listed, rfl⟩ := List.mem_map.mp member
      exact names d listed id written used
  exact Declaration.types_alike alike fun d listed => List.mem_map_of_mem listed

/-- A copy of a source of a linked project can always be made. It is the source itself exactly if it
declares the same types, and it does so unless the source uses the name of a member type that one of
its own types inherits. -/
theorem detached_agrees_with_unit (reached : Reached grammar project)
    (known : project.relink.unit? resource = some unit) :
    ∃ copy, project.relink.detached grammar resource unit.tree.source = .ok copy ∧
      (copy = unit ↔ copy.types = unit.types) ∧
      (unit.Plain project.nameIndexOf → unit.Plain project.relink.index → copy = unit) := by
  have linked := link_unit known
  have types : unit.types = unit.declare project.nameIndexOf := congrArg SourceUnit.types linked
  have agrees : unit.declare project.relink.index = unit.declare project.nameIndexOf →
      unit.link (unit.declare project.relink.index) project.relink.index = unit := fun same => by
    rw [same]
    exact linked.symm
  refine ⟨_, detached_relink reached.parsed known, ⟨congrArg SourceUnit.types, fun same => ?_⟩, ?_⟩
  · exact agrees (Eq.trans same types)
  · exact fun names finished => agrees (declare_relink reached.parsed names finished)

def accessorText : String :=
  "interface A \x7b B b(); interface B \x7b\x7d \x7d"

def accessorParse : Parse where
  tree := .node "program" true ⟨0, 37⟩ none [
    .node "interface_declaration" true ⟨0, 37⟩ none [
      .token "interface" 0,
      .leaf (some "name") "identifier" 10 11,
      .node "interface_body" true ⟨12, 37⟩ (some "body") [
        .token "\x7b" 12,
        .node "method_declaration" true ⟨14, 20⟩ none [
          .leaf (some "type") "type_identifier" 14 15,
          .leaf (some "name") "identifier" 16 17,
          .node "formal_parameters" true ⟨17, 19⟩ (some "parameters") [.token "(" 17, .token ")" 18],
          .token ";" 19],
        .node "interface_declaration" true ⟨21, 35⟩ none [
          .token "interface" 21,
          .leaf (some "name") "identifier" 31 32,
          .node "interface_body" true ⟨33, 35⟩ (some "body") [.token "\x7b" 33, .token "\x7d" 34]],
        .token "\x7d" 36]]]
  hasErrors := false

def accessorUnit : SourceUnit :=
  .ofSource "A.java" (Source.ofParse accessorText accessorParse)

def accessorProject : Project :=
  ({ layout := { root := "/project" } } : Project).insertUnit accessorUnit

theorem accessorProject_reached : Reached (fun _ => some accessorParse) accessorProject :=
  .insertSource (.new { root := "/project" }) rfl

theorem accessor_told :
    accessorUnit.names.map (·.name) = ["A", "A.B"] ∧
      ∀ d ∈ accessorUnit.declare accessorProject.nameIndexOf, d.parents = [] := by
  decide +kernel

theorem accessor_plain :
    accessorUnit.Plain accessorProject.nameIndexOf ∧ accessorUnit.Plain accessorProject.relink.index := by
  have foreign : ∀ name ∈ accessorUnit.names.map (·.name), Catalogue.contains name = false := by
    rw [accessor_told.1]
    decide +kernel
  have plain : ∀ d ∈ accessorUnit.names, ∀ name, ¬accessorProject.nameIndexOf.Inherits d.name name ∧
      ¬accessorProject.relink.index.Inherits d.name name := by
    intro d listed
    refine not_inherits_of_parents ?_ (foreign _ (List.mem_map_of_mem listed))
    intro entry member
    cases List.mem_singleton.mp member
    exact accessor_told.2
  exact ⟨fun d listed _ _ _ => (plain d listed _).1, fun d listed _ _ _ => (plain d listed _).2⟩

theorem detached_agrees_with_unit_accessor :
    ∃ unit, accessorProject.relink.unit? "A.java" = some unit ∧
      unit.Plain accessorProject.nameIndexOf ∧ unit.Plain accessorProject.relink.index ∧
      accessorProject.relink.detached (fun _ => some accessorParse) "A.java" accessorText =
        .ok unit := by
  have known := unit?_relink accessorProject "A.java"
  have own : accessorProject.unit? "A.java" = some accessorUnit := unit?_insertUnit ..
  rw [own] at known
  obtain ⟨names, finished⟩ := accessor_plain
  obtain ⟨copy, made, -, same⟩ := detached_agrees_with_unit accessorProject_reached known
  exact ⟨_, known, names, finished, same names finished ▸ made⟩

end Project

end SpringLint
