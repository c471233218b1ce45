import SpringLint.Check.Component
import SpringLint.Proofs.Check.Assertions
import SpringLint.Proofs.Project.MetaAnnotations

/-! Which components of the framework's main code are reported. The walk ends at classes and
interfaces only, so what stands in an enum, a record or an annotation type is looked at as if it stood
at the top. -/

namespace SpringLint.Check

def isInspected : Kind → Bool
  | .classDeclaration | .interfaceDeclaration => true
  | _ => false

/-- A class or an interface of the framework's main code that is found by scanning. -/
structure Component (q : Query) (id : Nat) : Prop where
  live : q.tree.Live id
  kind : isInspected (q.tree.kind id) = true
  main : q.location = .main
  named : ∃ name, q.typeOf? id = some name ∧ Text.startsWith restrictedPackage name = true
  marked : q.carries id Catalogue.component = true

/-- A declaration that stands in no type declaration. -/
def TopLevel (t : Tree) (id : Nat) : Prop :=
  ∀ a ∈ t.ancestors id, (t.kind a).isTypeDeclaration = false

instance (t : Tree) (id : Nat) : Decidable (TopLevel t id) :=
  inferInstanceAs (Decidable (∀ a ∈ t.ancestors id, _))

def reportedComponents (q : Query) : List Nat :=
  (mainComponents q).map (·.node)

def isComponent (q : Query) (id : Nat) : Bool :=
  match q.typeOf? id with
  | some name =>
    Text.startsWith restrictedPackage name && q.location = .main &&
      q.carries id Catalogue.component
  | none => false

variable {q : Query} {id : Nat}

theorem isComponent_iff : isComponent q id = true ↔ q.location = .main ∧
    (∃ name, q.typeOf? id = some name ∧ Text.startsWith restrictedPackage name = true) ∧
      q.carries id Catalogue.component = true := by
  unfold isComponent
  cases q.typeOf? id with
  | none => simp
  | some name => simp [and_left_comm, and_assoc]

/-- The check reports the components that the walk gets to, in order. -/
theorem reportedComponents_eq (attached : q.tree.Attached) : reportedComponents q =
    (q.tree.descendants Tree.root).filter fun id =>
      (q.tree.ancestors id).all (fun a => !isInspected (q.tree.kind a)) &&
        (isInspected (q.tree.kind id) && isComponent q id) := by
  let look (id : Nat) : Bool × List Finding :=
    (!isInspected (q.tree.kind id),
      if isInspected (q.tree.kind id) && isComponent q id then [.warning .mainCodeComponent id []]
      else [])
  have looked : mainComponents q = q.tree.gather look := by
    unfold mainComponents
    congr 1
    funext id
    dsimp only [look]
    cases q.tree.kind id <;> rfl
  have finds (x : Nat) : (look x).2 = if (isInspected (q.tree.kind x) && isComponent q x) = true then
      (some (Finding.warning .mainCodeComponent x [])).toList else [] := rfl
  rw [reportedComponents, looked, Tree.gather_eq attached]
  simp only [finds, flatMap_ite_toList, Bool.decide_eq_true, List.filterMap_eq_map', List.map_map,
    List.filter_filter]
  rw [show Finding.node ∘ (Finding.warning .mainCodeComponent · []) = id from rfl, List.map_id]
  apply List.filter_congr
  intro x _
  exact Bool.and_comm _ _

theorem mem_reportedComponents_iff (attached : q.tree.Attached) : id ∈ reportedComponents q ↔
    Component q id ∧ ∀ a ∈ q.tree.ancestors id, isInspected (q.tree.kind a) = false := by
  rw [reportedComponents_eq attached, List.mem_filter]
  simp only [Bool.and_eq_true, List.all_eq_true, Bool.not_eq_true', isComponent_iff]
  constructor
  · intro ⟨live, apart, kind, main, named, marked⟩
    exact ⟨⟨live, kind, main, named, marked⟩, apart⟩
  · intro ⟨component, apart⟩
    exact ⟨component.live, apart, component.kind, component.main, component.named, component.marked⟩

theorem nodup_reportedComponents (attached : q.tree.Attached) : (reportedComponents q).Nodup := by
  rw [reportedComponents_eq attached]
  exact (Tree.nodup_descendants attached Tree.root).filter _

/-- A component is reported, once, if no class or interface is around it, whatever else is. So all
that is reported stands at the top exactly if every component in an enum, a record or an annotation
type has a class or an interface around it as well. -/
theorem reports_top_level_iff {text : String} {parse : Parse}
    (read : q.tree = (Source.ofParse text parse).tree) :
    (reportedComponents q).Nodup ∧
      (∀ id, id ∈ reportedComponents q ↔ Component q id ∧
        ∀ a ∈ q.tree.ancestors id, isInspected (q.tree.kind a) = false) ∧
      ((∀ id ∈ reportedComponents q, TopLevel q.tree id) ↔
        ∀ id, Component q id → TopLevel q.tree id ∨
          ∃ a ∈ q.tree.ancestors id, isInspected (q.tree.kind a) = true) := by
  have attached : q.tree.Attached := read ▸ Source.attached_ofParse text parse
  refine ⟨nodup_reportedComponents attached, fun id => mem_reportedComponents_iff attached, ?_⟩
  constructor
  · intro top id component
    by_cases inner : ∃ a ∈ q.tree.ancestors id, isInspected (q.tree.kind a) = true
    · exact .inr inner
    · have apart : ∀ a ∈ q.tree.ancestors id, isInspected (q.tree.kind a) = false :=
        fun a above => Bool.eq_false_iff.mpr fun inspected => inner ⟨a, above, inspected⟩
      exact .inl (top id ((mem_reportedComponents_iff attached).mpr ⟨component, apart⟩))
  · intro all id reported
    have ⟨component, apart⟩ := (mem_reportedComponents_iff attached).mp reported
    refine (all id component).resolve_right fun ⟨a, above, inspected⟩ => ?_
    rw [apart a above] at inspected
    cases inspected

def nestedText : String :=
  "package org.springframework.boot.example;\n" ++
    "import org.springframework.stereotype.Component;\n" ++
    "enum E \x7b A; @Component static class Nested \x7b\x7d \x7d\n"

def nestedParse : Parse where
  tree := .node "program" true ⟨0, 139⟩ none [
    .node "package_declaration" true ⟨0, 41⟩ none [
      .token "package" 0,
      .node "scoped_identifier" true ⟨8, 40⟩ none [
        .node "scoped_identifier" true ⟨8, 32⟩ (some "scope") [
          .node "scoped_identifier" true ⟨8, 27⟩ (some "scope") [
            .leaf (some "scope") "identifier" 8 11,
            .token "." 11,
            .leaf (some "name") "identifier" 12 27],
          .token "." 27,
          .leaf (some "name") "identifier" 28 32],
        .token "." 32,
        .leaf (some "name") "identifier" 33 40],
      .token ";" 40],
    .node "import_declaration" true ⟨42, 90⟩ none [
      .token "import" 42,
      .node "scoped_identifier" true ⟨49, 89⟩ none [
        .node "scoped_identifier" true ⟨49, 79⟩ (some "scope") [
          .node "scoped_identifier" true ⟨49, 68⟩ (some "scope") [
            .leaf (some "scope") "identifier" 49 52,
            .token "." 52,
            .leaf (some "name") "identifier" 53 68],
          .token "." 68,
          .leaf (some "name") "identifier" 69 79],
        .token "." 79,
        .leaf (some "name") "identifier" 80 89],
      .token ";" 89],
    .node "enum_declaration" true ⟨91, 138⟩ none [
      .token "enum" 91,
      .leaf (some "name") "identifier" 96 97,
      .node "enum_body" true ⟨98, 138⟩ (some "body") [
        .token "\x7b" 98,
        .node "enum_constant" true ⟨100, 101⟩ none [
          .leaf (some "name") "identifier" 100 101],
        .node "enum_body_declarations" true ⟨101, 136⟩ none [
          .token ";" 101,
          .node "class_declaration" true ⟨103, 136⟩ none [
            .node "modifiers" true ⟨103, 120⟩ none [
              .node "marker_annotation" true ⟨103, 113⟩ none [
                .token "@" 103,
                .leaf (some "name") "identifier" 104 113],
              .token "static" 114],
            .token "class" 121,
            .leaf (some "name") "identifier" 127 133,
            .node "class_body" true ⟨134, 136⟩ (some "body") [
              .token "\x7b" 134,
              .token "\x7d" 135]]],
        .token "\x7d" 137]]]
  hasErrors := false

def nestedQuery : Query :=
  let unit := SourceUnit.ofSource "src/main/java/E.java" (Source.ofParse nestedText nestedParse)
  let index := ({} : Index).insertAll (Catalogue.types.filter fun d => d.name = Catalogue.component)
  { unit := unit.link (unit.declare index) index
    project := { layout := { root := "/" } }
    files := {} }

/-- The class is reported, though it is a member of the enum. -/
theorem reports_top_level_iff_enum :
    (Component nestedQuery 36 ∧ nestedQuery.tree.kind 27 = .enumDeclaration ∧
      27 ∈ nestedQuery.tree.ancestors 36) ∧
      36 ∈ reportedComponents nestedQuery ∧
      ¬ ∀ id ∈ reportedComponents nestedQuery, TopLevel nestedQuery.tree id := by
  have ⟨live, kind, main, named, used⟩ :
      36 ∈ nestedQuery.tree.descendants Tree.root ∧
      isInspected (nestedQuery.tree.kind 36) = true ∧
      nestedQuery.location = .main ∧
      ((nestedQuery.typeOf? 36).map (Text.startsWith restrictedPackage ·)) = some true ∧
      Catalogue.component ∈ (nestedQuery.annotations 36).filterMap nestedQuery.typeOf? := by
    decide +kernel
  have marked : nestedQuery.carries 36 Catalogue.component = true :=
    Index.reaches_iff.mpr ⟨Catalogue.component, used, .refl⟩
  have ⟨enum, around, apart⟩ : nestedQuery.tree.kind 27 = .enumDeclaration ∧
      27 ∈ nestedQuery.tree.ancestors 36 ∧
      ∀ a ∈ nestedQuery.tree.ancestors 36, isInspected (nestedQuery.tree.kind a) = false := by
    decide +kernel
  have component : Component nestedQuery 36 :=
    ⟨live, kind, main, Option.map_eq_some_iff.mp named, marked⟩
  have ⟨_, reported, top⟩ := @reports_top_level_iff nestedQuery nestedText nestedParse rfl
  refine ⟨⟨component, enum, around⟩, (reported 36).mpr ⟨component, apart⟩, fun safe => ?_⟩
  rcases top.mp safe 36 component with alone | ⟨a, above, inspected⟩
  · have outer := alone 27 around
    rw [enum] at outer
    cases outer
  · rw [apart a above] at inspected
    cases inspected

end SpringLint.Check
