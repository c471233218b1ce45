import Mathlib.Data.List.Flatten
import SpringLint.Proofs.Model.Hierarchy
import SpringLint.Proofs.Project.Detached

/-! The index of a linked project. It knows the built-in types and those that the sources declare, each
name with the signature of its last declaration. -/

namespace SpringLint

namespace Declaration

theorem nodes_namesBelow (t : Tree) (package outer : Option String) (id : Nat) :
    ((namesBelow t package outer id).map (·.node)).Sublist (t.descendants id) := by
  induction later : t.size - id using Nat.strongRecOn generalizing id outer with
  | ind _ ih =>
    rw [namesBelow_eq, List.map_append, List.map_flatMap, Tree.descendants_eq]
    have here : ((named? t package outer id).toList.map (·.node)).Sublist [id] := by
      cases told : named? t package outer id with
      | none => exact List.nil_sublist _
      | some d => simp [node_of_named? told]
    refine here.append (.trans (.flatMap_right _ fun c child => ?_) (List.filter_sublist.flatMap _))
    have fewer := Tree.child_decreases (Tree.mem_node_of_mem_namedChildren child)
    exact ih _ (by omega) _ c rfl

end Declaration

namespace Index

variable {index : Index} {name : String}

theorem get?_insertAll_eq (types : List TypeDecl) (filled : name ≠ "") :
    (index.insertAll types).get? name =
      (types.reverse.find? fun type => type.name == name).or (index.get? name) := by
  induction types generalizing index with
  | nil => rfl
  | cons type rest ih =>
    have step : (index.insertAll (type :: rest)).get? name =
        (rest.reverse.find? fun type => type.name == name).or ((index.insert type).get? name) :=
      @ih (index.insert type)
    rw [step, get?_insert, List.reverse_cons, List.find?_append]
    by_cases here : type.name = name
    · have known : type.isAnonymous = false := by simp [TypeDecl.isAnonymous, here, filled]
      simp [here, known]
    · simp [here, Ne.symm here]

theorem kind?_foldl_declare (declared : List DeclaredName) :
    (declared.foldl (fun index d => index.declare d.name d.kind) index).kind? name =
      (((declared.filter fun d => d.name == name).getLast?).map (·.kind)).or (index.kind? name) := by
  induction declared generalizing index with
  | nil => rfl
  | cons d rest ih =>
    have step : (index.declare d.name d.kind).kind? name =
        if name = d.name then some d.kind else index.kind? name := Table.get?_insert ..
    rw [List.foldl_cons, ih, step]
    by_cases here : d.name = name
    · cases last : (rest.filter fun d => d.name == name).getLast? <;>
        simp [here, List.getLast?_cons, last]
    · simp [here, Ne.symm here]

theorem kind?_insert (d : TypeDecl) (told : index.kind? name = (index.get? name).map (·.kind)) :
    (index.insert d).kind? name = ((index.insert d).get? name).map (·.kind) := by
  unfold insert
  split
  · exact told
  · simp only [kind?, get?, Table.get?_insert] at told ⊢
    split
    · rfl
    · exact told

theorem kind?_catalogue (name : String) :
    catalogue.kind? name = (catalogue.get? name).map (·.kind) := by
  have told : ∀ (types : List TypeDecl) (index : Index),
      index.kind? name = (index.get? name).map (·.kind) →
      (index.insertAll types).kind? name = ((index.insertAll types).get? name).map (·.kind) := by
    intro types
    induction types with
    | nil => exact fun _ told => told
    | cons d rest ih => exact fun index told => ih (index.insert d) (kind?_insert d told)
  exact told Catalogue.types {} rfl

theorem isSome_get?_catalogue (filled : name ≠ "") :
    (catalogue.get? name).isSome = Catalogue.contains name := by
  have empty : ({} : Index).get? name = none := rfl
  rw [catalogue, get?_insertAll_eq _ filled, empty, Option.or_none, List.isSome_find?,
    List.any_reverse]
  rfl

end Index

namespace Project

variable {project : Project} {grammar : Grammar} {name : String} {unit : SourceUnit}
  {d : DeclaredName}

/-- What the sources declare by name, in the order of the resources and of each text. -/
def declarations (project : Project) : List (SourceUnit × DeclaredName) :=
  project.units.values.flatMap fun unit => unit.names.map fun d => (unit, d)

def lastDeclaration? (project : Project) (name : String) : Option (SourceUnit × DeclaredName) :=
  (project.declarations.filter fun entry => entry.2.name == name).getLast?

def signature (index : Index) (entry : SourceUnit × DeclaredName) : TypeDecl :=
  Declaration.namedType
    (Declaration.scopeAround entry.1.tree entry.1.names
      (TypeScope.ofHeader index entry.1.header) entry.2.node)
    entry.1.tree entry.2

theorem values_relink (project : Project) :
    project.relink.units.values = project.units.values.map fun unit =>
      unit.link (unit.declare project.nameIndexOf) project.relink.index := by
  change List.map _ (List.map _ (List.map _ _)) = List.map _ (List.map _ _)
  rw [List.map_map, List.map_map, List.map_map]
  rfl

theorem declarations_relink (project : Project) :
    project.relink.declarations = project.declarations.map fun entry =>
      (entry.1.link (entry.1.declare project.nameIndexOf) project.relink.index, entry.2) := by
  rw [declarations, declarations, values_relink, List.flatMap_map, List.map_flatMap]
  refine congrArg (fun told => List.flatMap told _) (funext fun unit => ?_)
  rw [List.map_map]
  rfl

theorem attached_of_mem_values (parsed : project.Parsed grammar)
    (member : unit ∈ project.units.values) : unit.tree.Attached := by
  obtain ⟨entry, among, rfl⟩ := List.mem_map.mp member
  exact parsed.attached among

theorem filter_declare (attached : unit.tree.Attached) (index : Index) (filled : name ≠ "") :
    (unit.declare index).filter (fun type => type.name == name) =
      (unit.names.filter fun d => d.name == name).map fun d => signature index (unit, d) := by
  have named : ∀ type ∈ unit.declare index, (type.name == name) =
      ((type.name == name) && Declaration.isNamed unit.tree type) := by
    intro type member
    by_cases here : type.name = name
    · obtain ⟨x, node, ⟨d, listed, -⟩ | ⟨-, nameless⟩⟩ := Declaration.told_types attached member
      · obtain ⟨-, around, made⟩ := Declaration.eq_of_find?_names listed
        have declares := Declaration.isSome_ofKind?_of_named? made
        simp [Declaration.isNamed, node, declares]
      · exact absurd (here.symm.trans nameless) filled
    · simp [here]
  calc
    _ = ((unit.declare index).filter (Declaration.isNamed unit.tree)).filter
        fun type => type.name == name := by
      rw [List.filter_filter]
      exact List.filter_congr named
    _ = _ := by
      rw [SourceUnit.declare, SourceUnit.names, Declaration.filter_types attached, List.filter_map]
      rfl

/-- Of all declarations of a name, the last one is what the finished index tells. -/
theorem get?_relink_eq (parsed : project.Parsed grammar) (filled : name ≠ "") :
    project.relink.index.get? name =
      ((project.lastDeclaration? name).map (signature project.nameIndexOf)).or
        (Index.catalogue.get? name) := by
  have told : ((project.units.values.flatMap fun unit => unit.declare project.nameIndexOf).filter
        fun type => type.name == name) =
      (project.declarations.filter fun entry => entry.2.name == name).map
        (signature project.nameIndexOf) := by
    rw [declarations, List.filter_flatMap, List.filter_flatMap, List.map_flatMap]
    refine List.flatMap_congr fun unit member => ?_
    rw [filter_declare (attached_of_mem_values parsed member) _ filled, List.filter_map,
      List.map_map]
    rfl
  calc
    _ = (project.nameIndexOf.insertAll
          (project.units.values.flatMap fun unit => unit.declare project.nameIndexOf)).get? name := by
      rw [Table.values, List.flatMap_map]
      change (Index.insertAll _ (List.flatMap _ (List.map _ _))).get? _ = _
      rw [List.flatMap_map]
      rfl
    _ = _ := by
      rw [Index.get?_insertAll_eq _ filled, ← List.getLast?_filter, told, List.getLast?_map,
        get?_nameIndexOf]
      rfl

theorem kind?_relink_eq (parsed : project.Parsed grammar) (filled : name ≠ "") :
    project.relink.index.kind? name = (project.relink.index.get? name).map (·.kind) := by
  have names : project.units.values.flatMap SourceUnit.names = project.declarations.map (·.2) := by
    rw [declarations, List.map_flatMap]
    exact List.flatMap_congr fun unit _ => by rw [List.map_map]; exact (List.map_id _).symm
  calc
    _ = project.nameIndexOf.kind? name := kind?_relink parsed name
    _ = ((project.lastDeclaration? name).map (·.2.kind)).or (Index.catalogue.kind? name) := by
      rw [nameIndexOf, nameIndex, Index.kind?_foldl_declare, names, List.filter_map,
        List.getLast?_map, Option.map_map]
      rfl
    _ = _ := by
      rw [get?_relink_eq parsed filled, Index.kind?_catalogue, Option.map_or, Option.map_map]
      rfl

theorem lastDeclaration?_relink (project : Project) (name : String) :
    project.relink.lastDeclaration? name = (project.lastDeclaration? name).map fun entry =>
      (entry.1.link (entry.1.declare project.nameIndexOf) project.relink.index, entry.2) := by
  rw [lastDeclaration?, declarations_relink, List.filter_map, List.getLast?_map]
  rfl

theorem mem_of_lastDeclaration? (last : project.lastDeclaration? name = some (unit, d)) :
    unit ∈ project.units.values ∧ d ∈ unit.names ∧ d.name = name := by
  have member := List.mem_filter.mp (List.mem_of_getLast? last)
  obtain ⟨own, among, same⟩ := List.mem_flatMap.mp member.1
  obtain ⟨e, listed, made⟩ := List.mem_map.mp same
  cases made
  exact ⟨among, listed, by simpa using member.2⟩

theorem isSome_lastDeclaration?_iff :
    (project.lastDeclaration? name).isSome = true ↔
      ∃ unit ∈ project.units.values, ∃ d ∈ unit.names, d.name = name := by
  constructor
  · intro present
    obtain ⟨⟨unit, d⟩, last⟩ := Option.isSome_iff_exists.mp present
    obtain ⟨among, listed, named⟩ := mem_of_lastDeclaration? last
    exact ⟨unit, among, d, listed, named⟩
  · rintro ⟨unit, among, d, listed, named⟩
    have member : (unit, d) ∈ project.declarations :=
      List.mem_flatMap.mpr ⟨unit, among, List.mem_map.mpr ⟨d, listed, rfl⟩⟩
    refine List.getLast?_isSome.mpr (List.ne_nil_of_mem (List.mem_filter.mpr ⟨member, ?_⟩))
    simpa using named

/-- The index of a linked project tells each name once: the built-in types and those that a source
declares are known, with their kinds, and the last declaration of a name is the one that counts. -/
theorem index_consistent (reached : Reached grammar project) :
    let linked := project.relink
    linked.units.Ascending ∧
    (∀ unit ∈ linked.units.values,
      (unit.names.map (·.node)).Sublist (unit.tree.descendants Tree.root) ∧
      (unit.types.filter (Declaration.isNamed unit.tree)).map
          (fun type => (type.node, type.name, type.kind)) =
        unit.names.map fun d => (some d.node, d.name, d.kind)) ∧
    ∀ name ≠ "",
      (linked.index.contains name = true ↔ Catalogue.contains name = true ∨
        ∃ unit ∈ linked.units.values, ∃ d ∈ unit.names, d.name = name) ∧
      linked.index.contains name = (linked.index.get? name).isSome ∧
      linked.index.kind? name = (linked.index.get? name).map (·.kind) ∧
      (∀ unit d, linked.lastDeclaration? name = some (unit, d) →
        ∃ type, unit.typeAt? d.node = some type ∧ type.name = name ∧ type.kind = d.kind ∧
          linked.index.get? name = some type) ∧
      (linked.lastDeclaration? name = none →
        linked.index.get? name = Index.catalogue.get? name) := by
  have parsed := reached.parsed
  refine ⟨reached.relink.ascending, fun unit member => ?_, fun name filled => ?_⟩
  · rw [values_relink] at member
    obtain ⟨unit, among, rfl⟩ := List.mem_map.mp member
    refine ⟨Declaration.nodes_namesBelow .., ?_⟩
    have named := Declaration.filter_types (attached_of_mem_values parsed among) unit.header
      project.nameIndexOf
    refine (congrArg (List.map fun type => (type.node, type.name, type.kind)) named).trans ?_
    rw [List.map_map]
    rfl
  · have known := get?_relink_eq parsed filled
    have kinds := kind?_relink_eq parsed filled
    have again := lastDeclaration?_relink project name
    have present : project.relink.index.contains name =
        (project.relink.index.get? name).isSome := by
      rw [← Option.isSome_map (f := (·.kind)), ← kinds]
      rfl
    refine ⟨?_, present, kinds, fun unit d last => ?_, fun undeclared => ?_⟩
    · have counted : (project.relink.lastDeclaration? name).isSome =
          (project.lastDeclaration? name).isSome := by rw [again, Option.isSome_map]
      rw [present, known, Option.isSome_or, Option.isSome_map, Bool.or_eq_true, or_comm,
        Index.isSome_get?_catalogue filled, ← counted, isSome_lastDeclaration?_iff]
    · rw [again] at last
      obtain ⟨⟨before, d⟩, told, made⟩ := Option.map_eq_some_iff.mp last
      cases made
      obtain ⟨among, listed, named⟩ := mem_of_lastDeclaration? told
      refine ⟨signature project.nameIndexOf (before, d), ?_, named, rfl, ?_⟩
      · exact Declaration.find?_types (attached_of_mem_values parsed among) _ listed
      · rw [known, told]
        rfl
    · rw [again, Option.map_eq_none_iff] at undeclared
      rw [known, undeclared, Option.map_none, Option.none_or]

/-- The hierarchy that a linked project knows. The supertypes of a type come once each and the nearer
ones first, its superclasses are those along the one path upwards, and a subtype is below its supertype
by steps to direct supertypes. -/
theorem hierarchy_of_reached (reached : Reached grammar project) :
    let index := project.relink.index
    (∀ d, ((index.supertypes d).map (·.name)).Nodup ∧
      (index.supertypes d).Pairwise (fun e f => index.distance d e ≤ index.distance d f) ∧
      ∀ path, index.IsSuperclassPath d path ↔ path = index.superclasses d) ∧
    ∀ a b, index.isSubtype a b = true ↔ Relation.ReflTransGen index.Extends a b := by
  intro index
  have built : index.Built := reached.relink.built
  refine ⟨fun d => ⟨Index.nodup_names_supertypes built, Index.pairwise_supertypes built,
    fun path => ⟨fun other => ?_, ?_⟩⟩, fun a b => Index.isSubtype_iff built⟩
  · exact other.unique built (Index.isSuperclassPath_superclasses built d)
  · rintro rfl
    exact Index.isSuperclassPath_superclasses built d

theorem insertSource_eq {resource text : String} {parse : Parse} (read : grammar text = some parse) :
    project.insertSource grammar resource text =
      .ok (project.insertUnit (.ofSource resource (Source.ofParse text parse))) := by
  simp only [insertSource, parseUnit, Source.parse?, read]
  rfl

def namesakeText : String :=
  "class A \x7b\x7d"

def namesakeParse : Parse where
  tree := .node "program" true ⟨0, 10⟩ none [
    .node "class_declaration" true ⟨0, 10⟩ none [
      .token "class" 0,
      .leaf (some "name") "identifier" 6 7,
      .node "class_body" true ⟨8, 10⟩ (some "body") [.token "\x7b" 8, .token "\x7d" 9]]]
  hasErrors := false

def namesakeGrammar : Grammar :=
  fun text => some (if text = namesakeText then namesakeParse else accessorParse)

def namesakeProject : Project :=
  accessorProject.insertUnit (.ofSource "B.java" (Source.ofParse namesakeText namesakeParse))

theorem namesakeProject_reached : Reached namesakeGrammar namesakeProject := by
  have first : namesakeGrammar accessorText = some accessorParse :=
    congrArg some (if_neg (by decide))
  have second : namesakeGrammar namesakeText = some namesakeParse := congrArg some (if_pos rfl)
  exact .insertSource (.insertSource (.new { root := "/project" }) (insertSource_eq first))
    (insertSource_eq second)

theorem index_consistent_namesake :
    Reached namesakeGrammar namesakeProject ∧ ∃ unit d type,
      namesakeProject.relink.lastDeclaration? "A" = some (unit, d) ∧ unit.resource = "B.java" ∧
      namesakeProject.relink.index.get? "A" = some type ∧ type.kind = .classType := by
  refine ⟨namesakeProject_reached, ?_⟩
  obtain ⟨-, -, names⟩ := index_consistent namesakeProject_reached
  obtain ⟨-, -, -, last, -⟩ := names "A" (by decide)
  have told : (namesakeProject.relink.lastDeclaration? "A").map
      (fun entry => (entry.1.resource, entry.2.kind)) = some ("B.java", .classType) := by
    rw [lastDeclaration?_relink, Option.map_map]
    decide +kernel
  obtain ⟨⟨unit, d⟩, found, same⟩ := Option.map_eq_some_iff.mp told
  obtain ⟨resource, kind⟩ := Prod.mk.inj same
  obtain ⟨type, -, -, alike, known⟩ := last unit d found
  exact ⟨unit, d, type, found, resource, known, alike.trans kind⟩

end Project

end SpringLint
