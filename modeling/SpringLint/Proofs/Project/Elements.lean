import SpringLint.Proofs.Project.AnnotationViews

/-! The elements of an annotation. The tree is asked for one element at a time, and what is recorded of
an annotation holds the values of all of them. Either way an element has the value that the first
argument gives it of those that give it one. -/

namespace SpringLint

namespace TypeDecl

/-- The annotations that are recorded with a type: its own, and those of its methods and fields. -/
def recorded (type : TypeDecl) : List AnnotationUse :=
  type.annotations ++ type.methods.flatMap (·.annotations) ++ type.fields.flatMap (·.annotations)

end TypeDecl

namespace Declaration

variable {t : Tree} {argument id : Nat} {element : String} {value : ElementValue} {owner : TypeKind}
  {declared : List DeclaredName} {d : DeclaredName} {type : TypeDecl}

/-- An argument gives an element a value: a pair the element that is its key, and any argument that is
neither a pair nor a comment the element `value`. A pair without key or value gives nothing. -/
inductive Gives (t : Tree) (argument : Nat) : String → ElementValue → Prop
  | pair {key value : Nat} (isPair : t.kind argument = .elementValuePair)
      (named : t.childByField argument "key" = some key)
      (valued : t.childByField argument "value" = some value) :
      Gives t argument (t.text key) (elementValue t value)
  | unnamed (single : t.kind argument ≠ .elementValuePair)
      (said : (t.kind argument).isComment = false) :
      Gives t argument "value" (elementValue t argument)

theorem elementPair?_eq_some_iff :
    elementPair? t argument = some (element, value) ↔ Gives t argument element value := by
  unfold elementPair?
  constructor
  · intro given
    by_cases isPair : t.kind argument = .elementValuePair
    · rw [if_pos isPair] at given
      simp only [Option.bind_eq_bind, Option.bind_eq_some_iff] at given
      obtain ⟨key, named, source, valued, made⟩ := given
      cases made
      exact .pair isPair named valued
    · rw [if_neg isPair] at given
      cases said : (t.kind argument).isComment with
      | true => simp [said] at given
      | false =>
        rw [said] at given
        cases given
        exact .unnamed isPair said
  · intro gives
    cases gives with
    | pair isPair named valued => simp [isPair, named, valued]
    | unnamed single said => simp [single, said]

def ReadOff (t : Tree) (uses : List AnnotationUse) : Prop :=
  ∀ use ∈ uses, ∃ scope id, use = annotationUse scope t id

theorem readOff_nil : ReadOff t [] :=
  List.forall_mem_nil _

theorem readOff_append {left right : List AnnotationUse} (first : ReadOff t left)
    (second : ReadOff t right) : ReadOff t (left ++ right) :=
  List.forall_mem_append.mpr ⟨first, second⟩

theorem readOff_flatMap {α : Type} {members : List α} {uses : α → List AnnotationUse}
    (each : ∀ m ∈ members, ReadOff t (uses m)) : ReadOff t (members.flatMap uses) :=
  List.forall_mem_flatMap.mpr each

theorem readOff_modifiers (scope : TypeScope) (t : Tree) (id : Nat) :
    ReadOff t (modifiers scope t id).2 := by
  unfold modifiers
  cases t.childOfKind id .modifiers with
  | none => exact readOff_nil
  | some list =>
    intro use among
    obtain ⟨node, -, same⟩ := List.mem_map.mp among
    exact ⟨scope, node, same.symm⟩

theorem readOff_methods (scope : TypeScope) :
    ReadOff t ((methods scope t owner id).flatMap (·.annotations)) := by
  apply readOff_flatMap
  intro m member
  obtain ⟨node, -, same⟩ := List.mem_map.mp member
  rw [← same]
  exact readOff_modifiers scope t node

theorem readOff_allFields (scope : TypeScope) :
    ReadOff t ((allFields scope t owner id).flatMap (·.annotations)) := by
  apply readOff_flatMap
  intro field member
  obtain ⟨node, -, inside⟩ := List.mem_flatMap.mp member
  obtain ⟨name, -, same⟩ := List.mem_map.mp inside
  rw [← same]
  exact readOff_modifiers scope t node

theorem readOff_components (scope : TypeScope) :
    ReadOff t ((components scope t id).flatMap (·.annotations)) := by
  apply readOff_flatMap
  intro field member
  unfold components at member
  split at member
  · cases member
  · obtain ⟨parameter, -, same⟩ := List.mem_map.mp member
    rw [← same]
    exact readOff_nil

theorem readOff_namedType (scope : TypeScope) (d : DeclaredName) :
    ReadOff t (namedType scope t d).recorded := by
  let inside := scope.enterType d.name (typeVariables t d.node)
  have fields : (namedType scope t d).fields = allFields inside t d.kind d.node ++
      if d.kind = .recordType then components inside t d.node else [] := rfl
  refine readOff_append (readOff_append ?_ ?_) ?_
  · exact readOff_modifiers scope t d.node
  · exact readOff_methods inside
  · rw [fields, List.flatMap_append]
    refine readOff_append (readOff_allFields inside) ?_
    split
    · exact readOff_components inside
    · exact readOff_nil

theorem readOff_anonymousType (scope : TypeScope)
    (made : anonymousType? scope t declared id = some type) : ReadOff t type.recorded := by
  simp only [anonymousType?, Option.bind_eq_bind, Option.bind_eq_some_iff] at made
  obtain ⟨parents, -, same⟩ := made
  cases same
  exact readOff_append (readOff_append readOff_nil (readOff_methods scope))
    (readOff_allFields scope)

theorem readOff_of_mem_typesBelow (scope : TypeScope)
    (member : type ∈ typesBelow t declared scope id) : ReadOff t type.recorded := by
  induction later : t.size - id using Nat.strongRecOn generalizing scope id with
  | ind _ ih =>
    have deeper (inner : TypeScope)
        (below : type ∈ (t.namedChildren id).flatMap (typesBelow t declared inner)) :
        ReadOff t type.recorded := by
      obtain ⟨c, child, inside⟩ := List.mem_flatMap.mp below
      have fewer := Tree.child_decreases (Tree.mem_node_of_mem_namedChildren child)
      exact ih _ (by omega) inner inside rfl
    rw [typesBelow_eq] at member
    cases found : declared.find? fun d => d.node == id with
    | some d =>
      rw [found] at member
      rcases List.mem_cons.mp member with here | below
      · rw [here]
        exact readOff_namedType scope d
      · exact deeper _ below
    | none =>
      rw [found] at member
      rcases List.mem_append.mp member with here | below
      · split at here
        · exact readOff_anonymousType scope (Option.mem_toList.mp here)
        · cases here
      · exact deeper scope below

end Declaration

namespace Tree

open Declaration (Gives)

def elementArguments (t : Tree) (use : Nat) : List Nat :=
  match t.childByField use "arguments" with
  | some list => t.namedChildren list
  | none => []

/-- An annotation gives an element a value: the first of its arguments that gives the element a value
gives it this one. -/
def GivesFirst (t : Tree) (use : Nat) (element : String) (value : ElementValue) : Prop :=
  ∃ before argument after, t.elementArguments use = before ++ argument :: after ∧
    Gives t argument element value ∧ ∀ earlier ∈ before, ∀ other, ¬Gives t earlier element other

end Tree

namespace Query

open Declaration (Gives)

variable {q : Query} {element : String} {value : ElementValue} {argument use : Nat}

theorem argumentValue?_eq_some_iff :
    q.argumentValue? element argument = some value ↔ Gives q.tree argument element value := by
  rw [argumentValue?_eq, ← Declaration.elementPair?_eq_some_iff, Option.bind_eq_some_iff]
  constructor
  · rintro ⟨⟨key, given⟩, recorded, chosen⟩
    obtain ⟨same, kept⟩ := Option.ite_none_right_eq_some.mp chosen
    cases kept
    rw [recorded, eq_of_beq same]
  · intro recorded
    exact ⟨_, recorded, if_pos BEq.rfl⟩

theorem elementValue?_eq (q : Query) (use : Nat) (element : String) :
    q.elementValue? use element = (q.tree.elementArguments use).findSome? (q.argumentValue? element) := by
  unfold elementValue? Tree.elementArguments
  cases q.tree.childByField use "arguments" <;> rfl

theorem elementValue?_eq_some_iff :
    q.elementValue? use element = some value ↔ q.tree.GivesFirst use element value := by
  have silent (earlier : Nat) : q.argumentValue? element earlier = none ↔
      ∀ other, ¬Gives q.tree earlier element other := by
    rw [Option.eq_none_iff_forall_ne_some]
    exact forall_congr' fun other => not_congr argumentValue?_eq_some_iff
  rw [elementValue?_eq, List.findSome?_eq_some_iff]
  simp only [argumentValue?_eq_some_iff, silent]
  rfl

/-- An annotation in the tree and what is recorded of it give each element the same value, that of
the first argument that gives it one. So do the annotations that are recorded with the types of a
unit. -/
theorem element_readings_agree (q : Query) (use : Nat) (element : String) :
    (∀ scope, (Declaration.annotationUse scope q.tree use).value? element =
      q.elementValue? use element) ∧
    (∀ value, q.elementValue? use element = some value ↔ q.tree.GivesFirst use element value) ∧
    ∀ (project : Project) (resource : String), project.relink.unit? resource = some q.unit →
      ∀ type ∈ q.unit.types, ∀ record ∈ type.recorded, record.node = some use →
        record.value? element = q.elementValue? use element := by
  refine ⟨fun scope => q.value?_annotationUse scope use element,
    fun value => elementValue?_eq_some_iff, ?_⟩
  intro project resource known type declared record recorded node
  have told : q.unit.types = q.unit.declare project.nameIndexOf :=
    congrArg SourceUnit.types (Project.link_unit known)
  rw [told] at declared
  obtain ⟨scope, id, same⟩ := Declaration.readOff_of_mem_typesBelow _ declared record recorded
  have own : id = use := Option.some.inj ((congrArg (·.node) same).symm.trans node)
  rw [same, own]
  exact q.value?_annotationUse scope use element

def repeatedText : String :=
  "@Foo(/**/1, value = 2, n = 3, n = 4) class A \x7b\x7d"

@[inherit_doc repeatedText]
def repeatedParse : Parse where
  tree := .node "program" true ⟨0, 47⟩ none [
    .node "class_declaration" true ⟨0, 47⟩ none [
      .node "modifiers" true ⟨0, 36⟩ none [
        .node "annotation" true ⟨0, 36⟩ none [
          .token "@" 0,
          .leaf (some "name") "identifier" 1 4,
          .node "annotation_argument_list" true ⟨4, 36⟩ (some "arguments") [
            .token "(" 4,
            .leaf none "block_comment" 5 9,
            .leaf none "decimal_integer_literal" 9 10,
            .token "," 10,
            .node "element_value_pair" true ⟨12, 21⟩ none [
              .leaf (some "key") "identifier" 12 17,
              .token "=" 18,
              .leaf (some "value") "decimal_integer_literal" 20 21],
            .token "," 21,
            .node "element_value_pair" true ⟨23, 28⟩ none [
              .leaf (some "key") "identifier" 23 24,
              .token "=" 25,
              .leaf (some "value") "decimal_integer_literal" 27 28],
            .token "," 28,
            .node "element_value_pair" true ⟨30, 35⟩ none [
              .leaf (some "key") "identifier" 30 31,
              .token "=" 32,
              .leaf (some "value") "decimal_integer_literal" 34 35],
            .token ")" 35]]],
      .token "class" 37,
      .leaf (some "name") "identifier" 43 44,
      .node "class_body" true ⟨45, 47⟩ (some "body") [.token "\x7b" 45, .token "\x7d" 46]]]
  hasErrors := false

def repeatedUnit : SourceUnit :=
  .ofSource "A.java" (Source.ofParse repeatedText repeatedParse)

def repeatedProject : Project :=
  ({ layout := { root := "/project" } } : Project).insertUnit repeatedUnit

def repeatedQuery : Query where
  unit := repeatedUnit.link (repeatedUnit.declare repeatedProject.nameIndexOf)
    repeatedProject.relink.index
  project := repeatedProject.relink
  files := {}

theorem repeated_known : repeatedProject.relink.unit? "A.java" = some repeatedQuery.unit := by
  rw [Project.unit?_relink]
  exact congrArg (Option.map _) (Project.unit?_insertUnit ..)

theorem element_readings_agree_repeated :
    ∃ type ∈ repeatedQuery.unit.types, ∃ record ∈ type.recorded, record.node = some 3 ∧
      record.value? "value" = some (.expression "1") ∧
      record.value? "n" = some (.expression "3") ∧ record.value? "other" = none := by
  have recorded : ∃ type ∈ repeatedUnit.declare repeatedProject.nameIndexOf,
      ∃ record ∈ type.recorded, record.node = some 3 := by decide +kernel
  obtain ⟨type, told, record, listed, node⟩ := recorded
  have read (element : String) :
      record.value? element = repeatedQuery.elementValue? 3 element :=
    (element_readings_agree repeatedQuery 3 element).2.2 repeatedProject "A.java" repeated_known
      type told record listed node
  have given : repeatedQuery.elementValue? 3 "value" = some (.expression "1") ∧
      repeatedQuery.elementValue? 3 "n" = some (.expression "3") ∧
      repeatedQuery.elementValue? 3 "other" = none := by decide +kernel
  refine ⟨type, told, record, listed, node, ?_⟩
  rw [read, read, read]
  exact given

end Query

end SpringLint
