import SpringLint.Proofs.Model.Index
import SpringLint.Proofs.Model.Resolution
import SpringLint.Proofs.Project.Load
import SpringLint.Proofs.Syntax.Batch

/-! What a linked project knows of its sources. Every source is what the grammar makes of its text,
and linking adds no name to those that it starts from and changes no kind. -/

namespace SpringLint

namespace Index

theorem names_insertAll (index : Index) (types : List TypeDecl) :
    (index.insertAll types).names =
      (types.filterMap fun type => Declaration.label type.name type.kind).foldl
        (fun t pair => t.insert pair.1 pair.2) index.names := by
  induction types generalizing index with
  | nil => rfl
  | cons type rest ih =>
    rw [insertAll, List.foldl_cons]
    refine (ih (index.insert type)).trans ?_
    by_cases nameless : type.name = ""
    · simp [Declaration.label, insert, TypeDecl.isAnonymous, nameless]
    · simp [Declaration.label, insert, TypeDecl.isAnonymous, nameless]

theorem names_foldl_declare (index : Index) (declared : List DeclaredName) :
    (declared.foldl (fun index d => index.declare d.name d.kind) index).names =
      (declared.map fun d => (d.name, d.kind)).foldl (fun t pair => t.insert pair.1 pair.2)
        index.names := by
  induction declared generalizing index with
  | nil => rfl
  | cons d rest ih => exact ih (index.declare d.name d.kind)

theorem kind?_insertAll {declared : List DeclaredName} {types : List TypeDecl}
    (same : types.filterMap (fun type => Declaration.label type.name type.kind) =
      declared.filterMap fun d => Declaration.label d.name d.kind) (index : Index) (name : String) :
    ((declared.foldl (fun index d => index.declare d.name d.kind) index).insertAll types).kind? name =
      (declared.foldl (fun index d => index.declare d.name d.kind) index).kind? name := by
  have again : ∀ l : List DeclaredName,
      (l.filterMap fun d => Declaration.label d.name d.kind).lookup name =
        if name = "" then none else (l.map fun d => (d.name, d.kind)).lookup name := by
    intro l
    induction l with
    | nil => simp
    | cons d rest ih =>
      rw [List.filterMap_cons, List.map_cons, List.lookup_cons, Declaration.label]
      by_cases nameless : d.name = ""
      · rw [nameless, if_pos (beq_self_eq_true _), ih]
        by_cases empty : name = ""
        · rw [if_pos empty, if_pos empty]
        · rw [if_neg empty, if_neg empty, beq_eq_false_iff_ne.mpr empty]
      · rw [if_neg (by simpa using nameless), List.lookup_cons, ih]
        by_cases here : name = d.name
        · simp [here, nameless]
        · rw [beq_eq_false_iff_ne.mpr here]
  rw [kind?, kind?, names_insertAll, same, Table.get?_foldl_insert, names_foldl_declare,
    Table.get?_foldl_insert, ← List.filterMap_reverse, again, ← List.map_reverse]
  split
  · rfl
  · cases (declared.reverse.map fun d => (d.name, d.kind)).lookup name <;> rfl

end Index

namespace Project

variable {project : Project} {grammar : Grammar} {files : FileSystem} {resource : String}
  {unit : SourceUnit}

def Parsed (project : Project) (grammar : Grammar) : Prop :=
  ∀ entry ∈ project.units.entries, ∃ source,
    Source.parse? grammar entry.2.tree.source = some source ∧
      entry.2.parsed = .ofSource entry.1 source

/-- The projects that the operations on projects lead to. -/
inductive Reached (grammar : Grammar) : Project → Prop
  | new (layout : Layout) : Reached grammar { layout := layout }
  | insertSource {project after : Project} {resource text : String} :
      Reached grammar project → project.insertSource grammar resource text = .ok after →
      Reached grammar after
  | load {project : Project} (files : FileSystem) (resources : List String) :
      Reached grammar project → Reached grammar (project.load grammar files resources).1
  | remove {project : Project} (resource : String) :
      Reached grammar project → Reached grammar (project.remove resource)
  | relink {project : Project} : Reached grammar project → Reached grammar project.relink

namespace Parsed

theorem remove (parsed : project.Parsed grammar) (resource : String) :
    (project.remove resource).Parsed grammar :=
  fun entry member => parsed entry (List.mem_filter.mp member).1

theorem insertUnit {source : Source} {text : String} (parsed : project.Parsed grammar)
    (made : Source.parse? grammar text = some source) :
    (project.insertUnit (.ofSource resource source)).Parsed grammar := by
  intro entry member
  rcases Table.mem_insertEntry member with rfl | old
  · obtain ⟨parse, -, rfl⟩ := Option.map_eq_some_iff.mp made
    refine ⟨_, ?_, rfl⟩
    change Source.parse? grammar (Source.ofParse text parse).tree.source = _
    rw [Source.source_ofParse, made]
  · exact parsed entry old

theorem takeOver {results : List (String × Except Error SourceUnit)}
    (parsed : project.Parsed grammar)
    (read : ∀ result ∈ results, ∀ unit, result.2 = .ok unit → ∃ text source,
      Source.parse? grammar text = some source ∧ unit = .ofSource result.1 source) :
    (project.takeOver results).1.Parsed grammar := by
  induction results generalizing project with
  | nil => exact parsed
  | cons result rest ih =>
    obtain ⟨here, later⟩ := List.forall_mem_cons.mp read
    obtain ⟨resource, error | unit⟩ := result
    · exact @ih (project.remove resource) (parsed.remove resource) later
    · obtain ⟨text, source, made, same⟩ := here unit rfl
      exact @ih (project.insertUnit unit) (same ▸ parsed.insertUnit made) later

theorem load (parsed : project.Parsed grammar) (files : FileSystem) (resources : List String) :
    (project.load grammar files resources).1.Parsed grammar := by
  refine parsed.takeOver fun result member unit loaded => ?_
  obtain ⟨resource, -, rfl⟩ := List.mem_map.mp member
  obtain ⟨text, source, -, made, same⟩ := readUnit_eq_ok loaded
  exact ⟨text, source, made, same⟩

theorem relink (parsed : project.Parsed grammar) : project.relink.Parsed grammar := by
  intro entry member
  simp only [Project.relink, List.map_map] at member
  obtain ⟨old, among, rfl⟩ := List.mem_map.mp member
  exact parsed old among

end Parsed

theorem insertSource_eq_ok {after : Project} {text : String}
    (added : project.insertSource grammar resource text = .ok after) :
    ∃ unit, project.parseUnit grammar resource text = .ok unit ∧ after = project.insertUnit unit := by
  unfold insertSource at added
  cases made : project.parseUnit grammar resource text with
  | error _ => simp [made, bind, Except.bind] at added
  | ok unit =>
    simp only [made, bind, Except.bind, pure, Except.pure, Except.ok.injEq] at added
    exact ⟨unit, rfl, added.symm⟩

theorem Reached.foldl_remove (reached : Reached grammar project) (resources : List String) :
    Reached grammar (resources.foldl Project.remove project) := by
  induction resources generalizing project with
  | nil => exact reached
  | cons resource rest ih => exact ih (reached.remove resource)

theorem Reached.parsed (reached : Reached grammar project) : project.Parsed grammar := by
  induction reached with
  | new layout => exact fun _ member => nomatch member
  | insertSource _ added ih =>
    obtain ⟨unit, made, rfl⟩ := insertSource_eq_ok added
    obtain ⟨source, parse, rfl⟩ := parseUnit_eq_ok made
    exact ih.insertUnit parse
  | load files resources _ ih => exact ih.load files resources
  | remove resource _ ih => exact ih.remove resource
  | relink _ ih => exact ih.relink

theorem Reached.ascending (reached : Reached grammar project) : project.units.Ascending := by
  induction reached with
  | new layout => exact Table.ascending_empty
  | insertSource _ added ih =>
    obtain ⟨unit, -, rfl⟩ := insertSource_eq_ok added
    exact ih.insert _ _
  | load files resources _ ih => exact ascending_load ih resources
  | remove resource _ ih => exact ih.erase resource
  | relink _ ih => exact ascending_relink ih

/-- The index of a project is made of names and types alone. -/
theorem Reached.built (reached : Reached grammar project) : project.index.Built := by
  induction reached with
  | new layout => exact Index.built_catalogue
  | insertSource _ added ih =>
    obtain ⟨unit, -, rfl⟩ := insertSource_eq_ok added
    exact ih
  | load files resources _ ih => rwa [index_load]
  | remove resource _ ih => exact ih
  | relink _ _ => exact (Index.built_catalogue.foldl_declare _).insertAll _

theorem Parsed.exists_parse (parsed : project.Parsed grammar) {entry : String × SourceUnit}
    (member : entry ∈ project.units.entries) :
    ∃ parse, grammar entry.2.tree.source = some parse ∧
      entry.2.tree = (Source.ofParse entry.2.tree.source parse).tree := by
  obtain ⟨source, made, same⟩ := parsed entry member
  obtain ⟨parse, read, rfl⟩ := Option.map_eq_some_iff.mp made
  exact ⟨parse, read, congrArg SourceUnit.tree same⟩

theorem Parsed.attached (parsed : project.Parsed grammar) {entry : String × SourceUnit}
    (member : entry ∈ project.units.entries) : entry.2.tree.Attached := by
  obtain ⟨parse, -, tree⟩ := parsed.exists_parse member
  rw [tree]
  exact Source.attached_ofParse _ parse

/-- The finished index knows the names that the project is linked with, and their kinds. -/
theorem kind?_relink (parsed : project.Parsed grammar) (name : String) :
    project.relink.index.kind? name = project.nameIndexOf.kind? name := by
  refine Index.kind?_insertAll ?_ .catalogue name
  rw [Table.values, List.flatMap_map, List.flatMap_map, List.filterMap_flatMap,
    List.filterMap_flatMap, List.flatMap_def, List.flatMap_def]
  refine congrArg List.flatten (List.map_congr_left fun entry member => ?_)
  exact Declaration.labels_types (parsed.attached member) entry.2.header _

theorem get?_nameIndexOf (project : Project) (name : String) :
    project.nameIndexOf.get? name = Index.catalogue.get? name := by
  suffices ∀ (declared : List DeclaredName) (index : Index),
      (declared.foldl (fun index d => index.declare d.name d.kind) index).get? name =
        index.get? name from this _ _
  intro declared
  induction declared with
  | nil => exact fun _ => rfl
  | cons d rest ih => exact fun index => ih (index.declare d.name d.kind)

theorem contains_nameIndexOf {name : String} (known : project.nameIndexOf.contains name = true) :
    (∃ entry ∈ project.units.entries, ∃ d ∈ entry.2.names, d.name = name) ∨
      Catalogue.contains name = true := by
  rcases Index.contains_foldl_declare known with ⟨d, listed, named⟩ | before
  · rw [Table.values, List.flatMap_map] at listed
    obtain ⟨entry, member, own⟩ := List.mem_flatMap.mp listed
    exact .inl ⟨entry, member, d, own, named⟩
  · rcases Index.contains_insertAll before with ⟨d, member, named⟩ | empty
    · exact .inr (List.any_eq_true.mpr ⟨d, member, beq_iff_eq.mpr named⟩)
    · cases empty

/-- A type that a linked project knows comes from one of the sources or from the catalogue. -/
theorem get?_relink {name : String} {d : TypeDecl} (known : project.relink.index.get? name = some d) :
    (∃ entry ∈ project.units.entries, d ∈ entry.2.declare project.nameIndexOf) ∨
      Index.catalogue.get? name = some d := by
  rcases Index.get?_insertAll known with ⟨told, -⟩ | before
  · rw [List.flatMap_map] at told
    exact .inl (List.mem_flatMap.mp told)
  · rw [← get?_nameIndexOf project]
    exact .inr before

theorem not_inherits_of_parents {outer : String}
    (rootless : ∀ entry ∈ project.units.entries, ∀ d ∈ entry.2.declare project.nameIndexOf,
      d.parents = [])
    (foreign : Catalogue.contains outer = false) (name : String) :
    ¬project.nameIndexOf.Inherits outer name ∧ ¬project.relink.index.Inherits outer name := by
  constructor
  · refine Index.not_inherits_of_parents (fun d known => ?_) name
    rw [get?_nameIndexOf, Index.get?_catalogue foreign] at known
    cases known
  · refine Index.not_inherits_of_parents (fun d known => ?_) name
    rcases get?_relink known with ⟨entry, member, told⟩ | catalogued
    · exact rootless entry member d told
    · rw [Index.get?_catalogue foreign] at catalogued
      cases catalogued

theorem link_unit (known : project.relink.unit? resource = some unit) :
    unit = unit.link (unit.declare project.nameIndexOf) project.relink.index := by
  rw [unit?_relink] at known
  obtain ⟨before, -, rfl⟩ := Option.map_eq_some_iff.mp known
  rfl

end Project

end SpringLint
