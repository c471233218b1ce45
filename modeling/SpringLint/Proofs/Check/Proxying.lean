import SpringLint.Check.BeanMethod
import SpringLint.Proofs.Model.Hierarchy
import SpringLint.Proofs.Project.AnnotationViews
import SpringLint.Proofs.Project.Consistency

/-! Whether calls of bean methods go through the container. The configuration annotations on a type and
on all its superclasses decide, and the flag of one annotation is read in two ways. -/

namespace SpringLint.Check

open Index (SuperclassAfter superclassAfter_zero superclassAfter_succ isSuperclassPath_superclasses)

variable {index : Index} {d e info : TypeDecl} {steps node id : Nat} {q : Query} {project : Project}
  {grammar : Grammar} {resource : String} {use : AnnotationUse}

def isConfigurationUse (index : Index) (use : AnnotationUse) : Bool :=
  use.isResolved && isConfigurationType index use.typeName

def isConfigured (index : Index) (d : TypeDecl) : Bool :=
  d.annotations.any (isConfigurationUse index)

/-- What a configuration annotation says about proxying: the value that it gives to the element, else
the default of the element, else that it is on. -/
def proxyFlag (index : Index) (use : AnnotationUse) : Bool :=
  (((use.value? proxyElement).bind (·.bool?)) <|>
    index.elementDefault? use.typeName proxyElement).getD true

/-- Whether one of the configuration annotations on a type has proxying on. -/
def switchesOn (index : Index) (d : TypeDecl) : Bool :=
  d.annotations.any fun use => isConfigurationUse index use && proxyFlag index use

/-- The nearest of a type and its superclasses that carries a configuration annotation. -/
def nearestConfigured? (index : Index) (d : TypeDecl) : Option TypeDecl :=
  (d :: index.superclasses d).find? (isConfigured index)

/-- What the nearest type with a configuration annotation says; without one, proxying is off. -/
def nearestProxying (index : Index) (d : TypeDecl) : Bool :=
  (nearestConfigured? index d).any (switchesOn index)

/-- An annotation that gives the element a value that is not literal, in place of the default of its
type, which is that proxying is off. -/
structure HidesDefault (index : Index) (use : AnnotationUse) : Prop where
  expression : ∃ value, use.value? proxyElement = some value ∧ value.bool? = none
  switchedOff : index.elementDefault? use.typeName proxyElement = some false

theorem proxyFlags_eq_map (index : Index) (d : TypeDecl) : proxyFlags index d =
    (d.annotations.filter (isConfigurationUse index)).map (proxyFlag index) :=
  rfl

theorem any_proxyFlags (index : Index) (d : TypeDecl) :
    (proxyFlags index d).any (fun flag => flag) = switchesOn index d := by
  rw [proxyFlags_eq_map, List.any_map, List.any_filter]
  rfl

theorem isConfigured_of_switchesOn (on : switchesOn index d = true) : isConfigured index d = true := by
  have ⟨use, carried, flagged⟩ := List.any_eq_true.mp on
  have ⟨configures, _⟩ := Bool.and_eq_true_iff.mp flagged
  exact List.any_eq_true.mpr ⟨use, carried, configures⟩

theorem nearestConfigured?_of_switchesOn (on : switchesOn index d = true) :
    nearestConfigured? index d = some d :=
  List.find?_cons_of_pos (isConfigured_of_switchesOn on)

theorem isProxiedWithin_zero : isProxiedWithin index 0 d = switchesOn index d := by
  rw [isProxiedWithin, any_proxyFlags, Bool.or_false]

theorem isProxiedWithin_succ : isProxiedWithin index (steps + 1) d =
    (switchesOn index d || (d.superclass.bind index.get?).any (isProxiedWithin index steps)) := by
  rw [isProxiedWithin, any_proxyFlags]
  cases d.superclass.bind index.get? <;> rfl

theorem isProxiedWithin_iff : isProxiedWithin index steps d = true ↔
    switchesOn index d = true ∨
      ∃ n < steps, ∃ e, index.SuperclassAfter d n e ∧ switchesOn index e = true := by
  induction steps generalizing d with
  | zero => simp only [isProxiedWithin_zero, Nat.not_lt_zero, false_and, exists_false, or_false]
  | succ steps ih =>
    rw [isProxiedWithin_succ, Bool.or_eq_true, Option.any_eq_true]
    refine or_congr Iff.rfl ⟨?_, ?_⟩
    · intro ⟨f, edge, within⟩
      rcases ih.mp within with on | ⟨n, near, e, above, on⟩
      · exact ⟨0, Nat.zero_lt_succ _, f, superclassAfter_zero.mpr edge, on⟩
      · exact ⟨n + 1, Nat.succ_lt_succ near, e, superclassAfter_succ.mpr ⟨f, edge, above⟩, on⟩
    · intro ⟨n, near, e, above, on⟩
      cases n with
      | zero => exact ⟨e, superclassAfter_zero.mp above, ih.mpr (.inl on)⟩
      | succ n =>
        have ⟨f, edge, further⟩ := superclassAfter_succ.mp above
        exact ⟨f, edge, ih.mpr (.inr ⟨n, Nat.lt_of_succ_lt_succ near, e, further, on⟩)⟩

section Built

variable (built : index.Built)
include built

/-- As many steps as there are types are enough for the walk, even if superclasses go round. -/
theorem isProxied_iff : isProxied index d = true ↔
    switchesOn index d = true ∨ ∃ n e, index.SuperclassAfter d n e ∧ switchesOn index e = true := by
  rw [isProxied, isProxiedWithin_iff]
  refine or_congr Iff.rfl ⟨fun ⟨n, _, e, above, on⟩ => ⟨n, e, above, on⟩, ?_⟩
  intro ⟨n, e, above, on⟩
  have path := isSuperclassPath_superclasses built d
  have listed : e ∈ index.superclasses d := (path.mem_iff built).mpr ⟨n, above⟩
  have ⟨m, inside, after, known⟩ := path.exists_of_mem built listed
  have near : m < index.size := Nat.lt_of_lt_of_le inside (path.length_le_size built)
  exact ⟨m, near, e, ⟨e.name, after, known⟩, on⟩

theorem isProxied_iff_exists_mem : isProxied index d = true ↔
    ∃ s ∈ d :: index.superclasses d, switchesOn index s = true := by
  rw [isProxied_iff built, exists_comm, List.exists_mem_cons_iff]
  simp only [(isSuperclassPath_superclasses built d).mem_iff built, exists_and_right]

theorem isProxied_eq : isProxied index d =
    (switchesOn index d || (d.superclass.bind index.get?).any (isProxied index)) := by
  rw [Bool.eq_iff_iff, isProxied_iff built, Bool.or_eq_true, Option.any_eq_true]
  refine or_congr Iff.rfl ⟨?_, ?_⟩
  · intro ⟨n, e, above, on⟩
    cases n with
    | zero =>
      exact ⟨e, superclassAfter_zero.mp above, (isProxied_iff built).mpr (.inl on)⟩
    | succ n =>
      have ⟨f, edge, further⟩ := superclassAfter_succ.mp above
      exact ⟨f, edge, (isProxied_iff built).mpr (.inr ⟨n, e, further, on⟩)⟩
  · intro ⟨f, edge, proxied⟩
    rcases (isProxied_iff built).mp proxied with on | ⟨n, e, above, on⟩
    · exact ⟨0, f, superclassAfter_zero.mpr edge, on⟩
    · exact ⟨n + 1, e, superclassAfter_succ.mpr ⟨f, edge, above⟩, on⟩

theorem isProxied_eq_nearest_iff : isProxied index d = nearestProxying index d ↔
    ∀ s, nearestConfigured? index d = some s → switchesOn index s = false →
      ∀ e ∈ index.superclasses d, switchesOn index e = false := by
  rw [nearestProxying]
  cases found : nearestConfigured? index d with
  | none =>
    have off : isProxied index d = false := by
      rw [Bool.eq_false_iff, Ne, isProxied_iff_exists_mem built]
      rintro ⟨s, listed, on⟩
      exact List.find?_eq_none.mp found s listed (isConfigured_of_switchesOn on)
    refine iff_of_true off fun s absent => ?_
    cases absent
  | some s =>
    rw [Option.any_some]
    cases state : switchesOn index s with
    | true =>
      have on : isProxied index d = true :=
        (isProxied_iff_exists_mem built).mpr ⟨s, List.mem_of_find?_eq_some found, state⟩
      refine iff_of_true on fun _ same off => ?_
      cases same
      cases state.symm.trans off
    | false =>
      have own : ¬switchesOn index d = true := fun on => by
        cases found.symm.trans (nearestConfigured?_of_switchesOn on)
        cases state.symm.trans on
      rw [Bool.eq_false_iff, Ne, isProxied_iff_exists_mem built, List.exists_mem_cons_iff,
        or_iff_right own]
      simp only [Option.some.injEq, forall_eq', state, true_imp_iff, not_exists, not_and,
        Bool.not_eq_true]

/-- The configuration annotations on a type and on its superclasses decide together, and the nearest
alone only as far as none behind it overrules it. A type without one inherits the answer. -/
theorem isProxied_of_built (d : TypeDecl) :
    (isProxied index d = true ↔ ∃ s ∈ d :: index.superclasses d, switchesOn index s = true) ∧
    (isProxied index d = nearestProxying index d ↔
      ∀ s, nearestConfigured? index d = some s → switchesOn index s = false →
        ∀ e ∈ index.superclasses d, switchesOn index e = false) ∧
    isProxied index d =
      (switchesOn index d || (d.superclass.bind index.get?).any (isProxied index)) :=
  ⟨isProxied_iff_exists_mem built, isProxied_eq_nearest_iff built, isProxied_eq built⟩

end Built

def configurationOf (name : String) (superclass : Option String) (values : List Bool) : TypeDecl where
  name := name
  simpleName := name
  kind := .classType
  superclass := superclass
  annotations := [{
    typeName := Catalogue.configuration
    isResolved := true
    values := values.map fun value => (proxyElement, .bool value) }]

/-- A superclass with proxying on keeps it on for a class that switches it off. -/
theorem isProxied_of_built_lite :
    let base := configurationOf "Base" none []
    let lite := configurationOf "Lite" (some "Base") [false]
    let index := ({} : Index).insertAll [base, lite]
    index.Built ∧ nearestConfigured? index lite = some lite ∧ nearestProxying index lite = false ∧
      isProxied index lite = true := by
  intro base lite index
  have built : index.Built := Index.Built.empty.insertAll _
  have ⟨reach, _, _⟩ := isProxied_of_built built lite
  refine ⟨built, by decide +kernel, by decide +kernel, reach.mpr ⟨base, ?_, ?_⟩⟩
  · decide +kernel
  · decide +kernel

theorem hidesDefault_iff : HidesDefault index use ↔
    (∃ value, use.value? proxyElement = some value ∧ value.bool? = none) ∧
      index.elementDefault? use.typeName proxyElement = some false :=
  ⟨fun ⟨expression, switchedOff⟩ => ⟨expression, switchedOff⟩,
    fun ⟨expression, switchedOff⟩ => ⟨expression, switchedOff⟩⟩

section Linked

variable (reached : Project.Reached grammar project)
  (known : project.relink.unit? resource = some q.unit)
include reached known

theorem exists_annotationUse (isClass : q.tree.kind node = .classDeclaration)
    (told : q.unit.typeAt? node = some info) (listed : use ∈ info.annotations) :
    ∃ scope, ∃ id ∈ q.annotations node, use = Declaration.annotationUse scope q.tree id := by
  have attached : q.tree.Attached := reached.relink.parsed.attached (Table.mem_of_get? known)
  have types : q.unit.types = q.unit.declare project.nameIndexOf :=
    congrArg SourceUnit.types (Project.link_unit known)
  cases found : q.unit.names.find? fun d => d.node == node with
  | none =>
    rw [SourceUnit.typeAt?, types] at told
    have body := (Declaration.nameless_of_find?_types attached found told).1
    cases isClass.symm.trans body
  | some d =>
    have declared := List.mem_of_find?_eq_some found
    have place : d.node = node := by simpa using List.find?_some found
    subst place
    rw [SourceUnit.typeAt?_declared attached types declared] at told
    cases told
    have recorded := q.annotations_namedType (q.unit.recordScope project.nameIndexOf d) d
    obtain ⟨id, written, same⟩ := List.mem_map.mp (recorded.subst (motive := (use ∈ ·)) listed)
    exact ⟨_, id, written, same.symm⟩

/-- The flag that is read off the annotation in the tree is the recorded one, unless the annotation
hides a default: a value that is not literal counts as none, and for the record alone the default
then stands. -/
theorem elementBool_eq_proxyFlag_iff (isClass : q.tree.kind node = .classDeclaration)
    (told : q.unit.typeAt? node = some info) (listed : use ∈ info.annotations)
    (written : use.node = some id) (bound : q.typeOf? id = some use.typeName) :
    ((q.elementBool? id proxyElement).getD true = proxyFlag q.index use ↔
      ¬HidesDefault q.index use) ∧
    (HidesDefault q.index use →
      (q.elementBool? id proxyElement).getD true = true ∧ proxyFlag q.index use = false) := by
  have ⟨scope, place, _, same⟩ := exists_annotationUse reached known isClass told listed
  have own : place = id := Option.some.inj ((congrArg (·.node) same).symm.trans written)
  have value : q.elementValue? id proxyElement = use.value? proxyElement := by
    rw [same, own]
    exact (q.value?_annotationUse scope id proxyElement).symm
  have read : q.elementBool? id proxyElement = (use.value? proxyElement).elim
      (q.index.elementDefault? use.typeName proxyElement) (·.bool?) := by
    rw [Query.elementBool?, bound, value]
    cases use.value? proxyElement <;> rfl
  rw [read, proxyFlag, hidesDefault_iff]
  cases use.value? proxyElement with
  | none => simp
  | some value =>
    cases literal : value.bool? with
    | none =>
      cases q.index.elementDefault? use.typeName proxyElement with
      | none => simp [literal]
      | some flag => cases flag <;> simp [literal]
    | some flag => simp [literal]

end Linked

def constantText : String :=
  "@org.springframework.boot.autoconfigure.AutoConfiguration(proxyBeanMethods = Flags.PROXY)\n" ++
    "class A \x7b\x7d"

def constantParse : Parse where
  tree := .node "program" true ⟨0, 100⟩ none [
    .node "class_declaration" true ⟨0, 100⟩ none [
      .node "modifiers" true ⟨0, 89⟩ none [
        .node "annotation" true ⟨0, 89⟩ none [
          .token "@" 0,
          .node "scoped_identifier" true ⟨1, 57⟩ (some "name") [
            .node "scoped_identifier" true ⟨1, 39⟩ (some "scope") [
              .node "scoped_identifier" true ⟨1, 25⟩ (some "scope") [
                .node "scoped_identifier" true ⟨1, 20⟩ (some "scope") [
                  .leaf (some "scope") "identifier" 1 4,
                  .token "." 4,
                  .leaf (some "name") "identifier" 5 20],
                .token "." 20,
                .leaf (some "name") "identifier" 21 25],
              .token "." 25,
              .leaf (some "name") "identifier" 26 39],
            .token "." 39,
            .leaf (some "name") "identifier" 40 57],
          .node "annotation_argument_list" true ⟨57, 89⟩ (some "arguments") [
            .token "(" 57,
            .node "element_value_pair" true ⟨58, 88⟩ none [
              .leaf (some "key") "identifier" 58 74,
              .token "=" 75,
              .node "field_access" true ⟨77, 88⟩ (some "value") [
                .leaf (some "object") "identifier" 77 82,
                .token "." 82,
                .leaf (some "field") "identifier" 83 88]],
            .token ")" 88]]],
      .token "class" 90,
      .leaf (some "name") "identifier" 96 97,
      .node "class_body" true ⟨98, 100⟩ (some "body") [.token "\x7b" 98, .token "\x7d" 99]]]
  hasErrors := false

def constantUnit : SourceUnit :=
  .ofSource "A.java" (Source.ofParse constantText constantParse)

def constantProject : Project :=
  ({ layout := { root := "/project" } } : Project).insertUnit constantUnit

def constantQuery : Query where
  unit := constantUnit.link (constantUnit.declare constantProject.nameIndexOf)
    constantProject.relink.index
  project := constantProject.relink
  files := {}

theorem constant_reached : Project.Reached (fun _ => some constantParse) constantProject :=
  .insertSource (.new { root := "/project" }) rfl

theorem constant_known : constantProject.relink.unit? "A.java" = some constantQuery.unit := by
  rw [Project.unit?_relink]
  exact congrArg (Option.map _) (Project.unit?_insertUnit ..)

def constantType : DeclaredName :=
  { node := 1, name := "A", kind := .classType }

def constantName : String :=
  "org.springframework.boot.autoconfigure.AutoConfiguration"

theorem constant_told :
    constantType ∈ constantQuery.unit.names ∧
      constantQuery.tree.kind constantType.node = .classDeclaration ∧
      constantQuery.annotations constantType.node = [3] ∧
      constantQuery.tree.annotationName 3 = constantName ∧
      constantQuery.elementValue? 3 proxyElement = some (.expression "Flags.PROXY") ∧
      constantProject.lastDeclaration? constantName = none := by
  decide +kernel

theorem catalogue_default :
    Index.catalogue.elementDefault? constantName proxyElement = some false := by
  rw [Index.elementDefault?, Index.catalogue, Index.get?_insertAll_eq _ (by decide)]
  decide +kernel

theorem constant_get? : constantProject.relink.index.get? constantName =
    Index.catalogue.get? constantName := by
  have ⟨_, _, _, _, _, undeclared⟩ := constant_told
  rw [Project.get?_relink_eq constant_reached.parsed (by decide), undeclared, Option.map_none,
    Option.none_or]

theorem constant_contains : constantProject.relink.index.contains constantName = true := by
  have found := catalogue_default
  rw [Index.elementDefault?, Option.bind_eq_bind] at found
  have ⟨d, known, _⟩ := Option.bind_eq_some_iff.mp found
  have kinds : constantProject.relink.index.kind? constantName =
      (constantProject.relink.index.get? constantName).map (·.kind) :=
    Project.kind?_relink_eq constant_reached.parsed (by decide)
  rw [constant_get?, known] at kinds
  exact congrArg Option.isSome kinds

theorem constant_default :
    constantQuery.index.elementDefault? constantName proxyElement = some false := by
  have linked : constantQuery.index = constantProject.relink.index := rfl
  rw [Index.elementDefault?, linked, constant_get?]
  exact catalogue_default

theorem constant_resolved {scope : TypeScope} (known : scope.index.contains constantName = true) :
    scope.resolve constantName = some constantName := by
  have trimmed : Text.trim constantName = constantName := by decide +kernel
  have parts : Text.cut? '.' constantName =
      some ("org", "springframework.boot.autoconfigure.AutoConfiguration") := by decide +kernel
  have other : (constantName == "") = false := by decide +kernel
  have object : TypeScope.primitives.contains constantName = false := by decide +kernel
  simp only [TypeScope.resolve, trimmed, other, object, parts, TypeScope.resolveDotted, known,
    Bool.false_eq_true, if_false, if_true]

theorem elementBool_eq_proxyFlag_iff_constant :
    ∃ info use, constantQuery.unit.typeAt? constantType.node = some info ∧ use ∈ info.annotations ∧
      use.node = some 3 ∧ constantQuery.typeOf? 3 = some use.typeName ∧
      (constantQuery.elementBool? 3 proxyElement).getD true = true ∧
      proxyFlag constantQuery.index use = false := by
  let scope := constantQuery.unit.recordScope constantProject.nameIndexOf constantType
  let info := Declaration.namedType scope constantQuery.tree constantType
  let use := Declaration.annotationUse scope constantQuery.tree 3
  have ⟨declared, isClass, annotations, name, value, _⟩ := constant_told
  have attached : constantQuery.tree.Attached :=
    constant_reached.relink.parsed.attached (Table.mem_of_get? constant_known)
  have types := congrArg SourceUnit.types (Project.link_unit constant_known)
  have told : constantQuery.unit.typeAt? constantType.node = some info :=
    SourceUnit.typeAt?_declared attached types declared
  have listed : use ∈ info.annotations := by
    have recorded := constantQuery.annotations_namedType scope constantType
    rw [annotations] at recorded
    exact recorded ▸ List.mem_cons_self
  have kinds := Project.kind?_relink constant_reached.parsed constantName
  have typeName : use.typeName = constantName := by
    have index : scope.index = constantProject.nameIndexOf := Declaration.index_scopeAround ..
    have known : scope.index.contains constantName = true :=
      index ▸ (congrArg Option.isSome kinds).symm.trans constant_contains
    rw [Query.typeName_annotationUse, name, constant_resolved known]
    rfl
  have bound : constantQuery.typeOf? 3 = some use.typeName := by
    have member : 3 ∈ constantQuery.annotations constantType.node := by
      rw [annotations]
      exact List.mem_cons_self
    have index : (constantQuery.unit.bindScope constantQuery.index 3).index = constantQuery.index :=
      BindingWalk.index_scopeAround ..
    rw [Query.typeOf?_of_mem_annotations constant_reached rfl constant_known declared member,
      name, typeName, constant_resolved (index.symm ▸ constant_contains)]
  have hidden : HidesDefault constantQuery.index use := by
    have given := (constantQuery.value?_annotationUse scope 3 proxyElement).trans value
    exact ⟨⟨_, given, rfl⟩, typeName ▸ constant_default⟩
  have ⟨_, differ⟩ :=
    elementBool_eq_proxyFlag_iff constant_reached constant_known isClass told listed rfl bound
  exact ⟨info, use, told, listed, rfl, bound, differ hidden⟩

end SpringLint.Check
