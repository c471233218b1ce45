import SpringLint.Project.Query
import SpringLint.Proofs.Model.Binding
import SpringLint.Proofs.Project.Linking

/-! The two views of the annotations on a type. What is recorded with the type is told in the scope
around it, with the names of the project alone; the binding of an annotation is told once the type
has been entered, with the finished index. The views agree where both scopes give the written name
the same meaning, and so they do unless the name is shadowed. -/

namespace SpringLint

open TypeScope (simpleName within)

def Tree.annotationName (t : Tree) (use : Nat) : String :=
  ((t.childByField use "name").map t.text).getD ""

/-- A scope of the walk against one of the declarations: the types around are the same, and so are
the type variables but for those of the methods among the nodes `above`. -/
structure BindingWalk.Wider (t : Tree) (above : List Nat) (inner outer : TypeScope) : Prop where
  package : inner.package = outer.package
  imports : inner.imports = outer.imports
  enclosing : inner.enclosing = outer.enclosing
  isVariable : ∀ name,
    (∀ m ∈ above, opensMethod (t.kind m) = true → name ∉ methodVariables t m) →
      inner.isVariable name = outer.isVariable name

namespace SourceUnit

open BindingWalk (opened opensMethod methodVariables Wider)

variable {unit : SourceUnit} {names finished : Index} {d : DeclaredName} {x use list : Nat}
  {written : String}

/-- The scope in which the annotations on a declared type are recorded. -/
def recordScope (unit : SourceUnit) (names : Index) (d : DeclaredName) : TypeScope :=
  Declaration.scopeAround unit.tree unit.names (TypeScope.ofHeader names unit.header) d.node

/-- The scope in which a node is bound. -/
def bindScope (unit : SourceUnit) (finished : Index) (id : Nat) : TypeScope :=
  BindingWalk.scopeAround unit.tree unit.types (TypeScope.ofHeader finished unit.header) id

/-- A name that a declared type does not give another meaning at its own annotations: it is neither
that of the type nor of a type variable of it or of a method around it, nor of a member type, and no
type around inherits a member type of that name. -/
structure Unshadowed (unit : SourceUnit) (names finished : Index) (d : DeclaredName)
    (name : String) : Prop where
  own : Text.lastPart '.' d.name ≠ name
  parameters : name ∉ Declaration.typeVariables unit.tree d.node
  member : finished.contains (within d.name name) = false
  methods : ∀ m ∈ unit.tree.ancestors d.node, opensMethod (unit.tree.kind m) = true →
    name ∉ methodVariables unit.tree m
  named : ∀ e ∈ unit.names, e.node ∈ d.node :: unit.tree.ancestors d.node → e.name ≠ ""
  inherited : ∀ e ∈ unit.names, e.node ∈ d.node :: unit.tree.ancestors d.node →
    ¬names.Inherits e.name name ∧ ¬finished.Inherits e.name name

section Told

variable (attached : unit.tree.Attached) (told : unit.types = unit.declare names)
include attached told

theorem typeAt?_declared (listed : d ∈ unit.names) :
    unit.typeAt? d.node = some (Declaration.namedType (unit.recordScope names d) unit.tree d) := by
  rw [typeAt?, told]
  exact Declaration.find?_types attached names listed

theorem opened_named (listed : d ∈ unit.names) (named : d.name ≠ "") (scope : TypeScope) :
    opened unit.tree d.node (unit.typeAt? d.node) scope =
      scope.enterType d.name (Declaration.typeVariables unit.tree d.node) := by
  rw [typeAt?_declared attached told listed, opened]
  exact if_neg (by simpa [TypeDecl.isAnonymous, Declaration.namedType] using named)

theorem opened_other (other : unit.names.find? (fun d => d.node == x) = none) (scope : TypeScope) :
    opened unit.tree x (unit.typeAt? x) scope =
      if opensMethod (unit.tree.kind x) then scope.enterVariables (methodVariables unit.tree x)
      else scope := by
  cases found : unit.typeAt? x with
  | none => rfl
  | some type =>
    rw [typeAt?, told] at found
    obtain ⟨body, nameless⟩ := Declaration.nameless_of_find?_types attached other found
    simp [opened, TypeDecl.isAnonymous, nameless, body, opensMethod]

theorem wider_opened {above : List Nat} {inner outer : TypeScope}
    (named : ∀ d ∈ unit.names, d.node = x → d.name ≠ "") (wider : Wider unit.tree above inner outer) :
    Wider unit.tree (x :: above) (opened unit.tree x (unit.typeAt? x) inner)
      (Declaration.openedAt unit.tree unit.names x outer) := by
  have further : ∀ name, (∀ m ∈ x :: above, opensMethod (unit.tree.kind m) = true →
      name ∉ methodVariables unit.tree m) → inner.isVariable name = outer.isVariable name :=
    fun name free => wider.isVariable name fun m among => free m (List.mem_cons_of_mem _ among)
  unfold Declaration.openedAt
  cases found : unit.names.find? fun d => d.node == x with
  | some d =>
    have listed := List.mem_of_find?_eq_some found
    have node : d.node = x := by simpa using List.find?_some found
    subst node
    rw [opened_named attached told listed (named d listed rfl)]
    refine ⟨wider.package, wider.imports, congrArg (d.name :: ·) wider.enclosing, ?_⟩
    intro name free
    simp only [TypeScope.isVariable_enterType, further name free]
  | none =>
    rw [opened_other attached told found]
    split
    · rename_i method
      refine ⟨wider.package, wider.imports, wider.enclosing, fun name free => ?_⟩
      have absent := free x List.mem_cons_self method
      simp [TypeScope.isVariable_enterVariables, further name free, absent]
    · exact ⟨wider.package, wider.imports, wider.enclosing, further⟩

theorem wider_bindScope
    (named : ∀ e ∈ unit.names, e.node ∈ unit.tree.ancestors d.node → e.name ≠ "") :
    Wider unit.tree (unit.tree.ancestors d.node) (unit.bindScope finished d.node)
      (unit.recordScope names d) := by
  unfold bindScope recordScope BindingWalk.scopeAround Declaration.scopeAround
  generalize unit.tree.ancestors d.node = above at named
  induction above with
  | nil => exact ⟨rfl, rfl, rfl, fun _ _ => rfl⟩
  | cons x above ih =>
    have inner := ih fun e listed among => named e listed (List.mem_cons_of_mem _ among)
    refine wider_opened attached told ?_ inner
    rintro e listed rfl
    exact named e listed List.mem_cons_self

theorem bindScope_use (modifiers : list ∈ unit.tree.childrenOfKind x .modifiers)
    (among : use ∈ unit.tree.children list) :
    unit.bindScope finished use =
      opened unit.tree x (unit.typeAt? x) (unit.bindScope finished x) := by
  obtain ⟨child, kind⟩ := List.mem_filter.mp modifiers
  have kind : unit.tree.kind list = .modifiers := by simpa using kind
  have plain : unit.names.find? (fun d => d.node == list) = none := by
    refine Option.eq_none_iff_forall_ne_some.mpr fun d found => ?_
    obtain ⟨-, around, made⟩ := Declaration.eq_of_find?_names found
    simp [Declaration.named?, kind, TypeKind.ofKind?] at made
  calc
    _ = opened unit.tree list (unit.typeAt? list) (unit.bindScope finished list) :=
      BindingWalk.scopeAround_child attached (Tree.mem_node_of_mem_children among)
    _ = unit.bindScope finished list := by
      rw [opened_other attached told plain, kind]
      rfl
    _ = _ := BindingWalk.scopeAround_child attached (Tree.mem_node_of_mem_children child)

theorem Unshadowed.resolve_enterType (listed : d ∈ unit.names)
    (kinds : ∀ name, finished.kind? name = names.kind? name)
    (clear : unit.Unshadowed names finished d (simpleName written)) :
    ((unit.bindScope finished d.node).enterType d.name
        (Declaration.typeVariables unit.tree d.node)).resolve written =
      (unit.recordScope names d).resolve written := by
  have wider : Wider unit.tree _ (unit.bindScope finished d.node) (unit.recordScope names d) :=
    wider_bindScope attached told
      fun e among above => clear.named e among (List.mem_cons_of_mem _ above)
  have inner : (unit.bindScope finished d.node).index = finished :=
    BindingWalk.index_scopeAround ..
  have outer : (unit.recordScope names d).index = names := Declaration.index_scopeAround ..
  have contains : (unit.bindScope finished d.node).index.contains =
      (unit.recordScope names d).index.contains := by
    rw [inner, outer]
    exact funext fun name => congrArg Option.isSome (kinds name)
  refine TypeScope.resolve_congr wider.package wider.imports contains ?_ ?_
  · simp [TypeScope.isVariable_enterType, clear.parameters, wider.isVariable _ clear.methods]
  · calc
      _ = (unit.bindScope finished d.node).enclosing? (simpleName written) := by
        refine TypeScope.enclosing?_enterType _ clear.own ?_ ?_
        · rw [inner, clear.member]
        · rw [inner]
          exact (clear.inherited d listed List.mem_cons_self).2
      _ = _ := by
        refine TypeScope.enclosing?_congr wider.enclosing contains fun name member => ?_
        obtain ⟨e, among, above, rfl⟩ := Declaration.mem_enclosing_scopeAround rfl member
        rw [inner, outer]
        exact (clear.inherited e among (List.mem_cons_of_mem _ above)).symm

theorem Unshadowed.resolve_use (listed : d ∈ unit.names)
    (kinds : ∀ name, finished.kind? name = names.kind? name)
    (clear : unit.Unshadowed names finished d (simpleName written))
    (modifiers : list ∈ unit.tree.childrenOfKind d.node .modifiers)
    (among : use ∈ unit.tree.children list) :
    (unit.bindScope finished use).resolve written = (unit.recordScope names d).resolve written := by
  have named := clear.named d listed List.mem_cons_self
  rw [bindScope_use attached told modifiers among, opened_named attached told listed named]
  exact clear.resolve_enterType attached told listed kinds

end Told

end SourceUnit

namespace Query

variable {q : Query} {project : Project} {grammar : Grammar} {resource : String} {d : DeclaredName}
  {info : TypeDecl} {use : Nat}

/-- Each recorded annotation is bound to a type exactly if it is resolved to that type. -/
def Agrees (q : Query) (info : TypeDecl) : Prop :=
  ∀ use ∈ info.annotations, ∀ id, use.node = some id →
    ∀ name, q.typeOf? id = some name ↔ use.isResolved = true ∧ use.typeName = name

theorem annotations_namedType (q : Query) (scope : TypeScope) (d : DeclaredName) :
    (Declaration.namedType scope q.tree d).annotations =
      (q.annotations d.node).map (Declaration.annotationUse scope q.tree) := by
  change (Declaration.modifiers scope q.tree d.node).2 = _
  unfold Declaration.modifiers annotations
  cases q.tree.childOfKind d.node .modifiers <;> rfl

theorem isResolved_annotationUse (scope : TypeScope) (t : Tree) (use : Nat) :
    (Declaration.annotationUse scope t use).isResolved =
      (scope.resolve (t.annotationName use)).isSome := by
  simp only [Declaration.annotationUse, Tree.annotationName]

theorem typeName_annotationUse (scope : TypeScope) (t : Tree) (use : Nat) :
    (Declaration.annotationUse scope t use).typeName =
      (scope.resolve (t.annotationName use)).getD (t.annotationName use) := by
  simp only [Declaration.annotationUse, Tree.annotationName]

theorem useBinding?_eq (t : Tree) (scope : TypeScope) (use : Nat) :
    BindingWalk.useBinding? t scope use = (scope.resolve (t.annotationName use)).map .type := by
  rw [BindingWalk.useBinding?, Tree.annotationName]
  cases t.childByField use "name" with
  | none => simp only [Option.bind_none, Option.map_none, Option.getD_none, TypeScope.resolve_empty]
  | some name => simp only [Option.bind_some, Option.map_some, Option.getD_some]

theorem lookup_filterMap {α β : Type} (f : α → Option (String × β)) (key : String) (l : List α) :
    (l.filterMap f).lookup key = l.findSome? fun a => (f a).bind fun pair =>
      if key == pair.1 then some pair.2 else none := by
  induction l with
  | nil => rfl
  | cons a l ih =>
    rw [List.filterMap_cons, List.findSome?_cons]
    cases f a with
    | none => exact ih
    | some pair =>
      obtain ⟨first, value⟩ := pair
      rw [List.lookup_cons, ih, Option.bind_some]
      cases key == first <;> rfl

theorem argumentValue?_eq (q : Query) (element : String) (argument : Nat) :
    q.argumentValue? element argument = (Declaration.elementPair? q.tree argument).bind fun pair =>
      if element == pair.1 then some pair.2 else none := by
  unfold argumentValue? Declaration.elementPair?
  by_cases pair : q.tree.kind argument = .elementValuePair
  · rw [if_pos pair, if_pos pair]
    cases q.tree.childByField argument "key" with
    | none => rfl
    | some key =>
      rw [Option.bind_eq_bind, Option.bind_some, Bool.beq_comm]
      cases q.tree.childByField argument "value" with
      | none => cases element == q.tree.text key <;> rfl
      | some value =>
        change _ = if element == q.tree.text key then some _ else none
        cases element == q.tree.text key <;> rfl
  · rw [if_neg pair, if_neg pair]
    cases (q.tree.kind argument).isComment <;> rfl

theorem value?_annotationUse (q : Query) (scope : TypeScope) (use : Nat) (element : String) :
    (Declaration.annotationUse scope q.tree use).value? element = q.elementValue? use element := by
  have same : q.argumentValue? element = fun argument =>
      (Declaration.elementPair? q.tree argument).bind fun pair =>
        if element == pair.1 then some pair.2 else none := funext (q.argumentValue?_eq element)
  rw [AnnotationUse.value?, elementValue?, Declaration.annotationUse, same]
  cases q.tree.childByField use "arguments" with
  | none => rfl
  | some arguments => exact lookup_filterMap _ element _

theorem mem_annotations {id : Nat} (member : use ∈ q.annotations id) :
    ∃ list ∈ q.tree.childrenOfKind id .modifiers, use ∈ q.tree.children list ∧
      (q.tree.kind use).isAnnotationUse = true := by
  unfold annotations at member
  split at member
  · obtain ⟨child, isUse⟩ := List.mem_filter.mp member
    exact ⟨_, List.mem_of_head? ‹_›, child, isUse⟩
  · cases member

/-- What is recorded of an annotation is the meaning of its name. -/
theorem recorded_iff_resolve {t : Tree} {scope : TypeScope} {found : Option String} :
    (∀ name, found = some name ↔ (Declaration.annotationUse scope t use).isResolved = true ∧
        (Declaration.annotationUse scope t use).typeName = name) ↔
      found = scope.resolve (t.annotationName use) := by
  rw [isResolved_annotationUse, typeName_annotationUse]
  cases scope.resolve (t.annotationName use) with
  | none => simp [Option.eq_none_iff_forall_ne_some]
  | some type =>
    refine ⟨fun same => (same type).mpr ⟨rfl, rfl⟩, ?_⟩
    rintro rfl name
    simp

theorem metas_recorded {t : Tree} {scope : TypeScope} {uses : List Nat} {found : Nat → Option String}
    (recorded : info.annotations = uses.map (Declaration.annotationUse scope t))
    (same : ∀ use ∈ uses, found use = scope.resolve (t.annotationName use)) :
    Index.metas info = uses.filterMap found := by
  rw [Index.metas, recorded]
  clear recorded
  induction uses with
  | nil => rfl
  | cons use rest ih =>
    obtain ⟨here, later⟩ := List.forall_mem_cons.mp same
    rw [List.map_cons, List.filter_cons, List.filterMap_cons, ← ih later, here,
      isResolved_annotationUse]
    cases meaning : scope.resolve (t.annotationName use) with
    | none => rfl
    | some type => simp [typeName_annotationUse, meaning]

section Recorded

variable {scope : TypeScope} {id : Nat}
  (recorded : info.annotations = (q.annotations id).map (Declaration.annotationUse scope q.tree))
include recorded

theorem agrees_iff :
    q.Agrees info ↔
      ∀ use ∈ q.annotations id, q.typeOf? use = scope.resolve (q.tree.annotationName use) := by
  rw [Agrees, recorded]
  constructor
  · intro agrees use member
    exact recorded_iff_resolve.mp (agrees _ (List.mem_map_of_mem member) use rfl)
  · intro same entry member x node
    obtain ⟨use, among, rfl⟩ := List.mem_map.mp member
    cases node
    exact recorded_iff_resolve.mpr (same _ among)

theorem Agrees.carries_eq (agrees : q.Agrees info) (target : String) :
    q.carries id target = q.index.carries info target := by
  rw [carries, Index.carries, metas_recorded recorded ((agrees_iff recorded).mp agrees)]

end Recorded

section Linked

variable (reached : Project.Reached grammar project) (linked : q.project = project.relink)
  (known : project.relink.unit? resource = some q.unit) (declared : d ∈ q.unit.names)
include reached linked known declared

theorem typeOf?_of_mem_annotations (member : use ∈ q.annotations d.node) :
    q.typeOf? use = (q.unit.bindScope q.index use).resolve (q.tree.annotationName use) := by
  have attached : q.tree.Attached := reached.relink.parsed.attached (Table.mem_of_get? known)
  have told : q.unit.types = q.unit.declare project.nameIndexOf :=
    congrArg SourceUnit.types (Project.link_unit known)
  have bindings : q.unit.bindings = Bindings.ofTree q.tree q.unit.header q.unit.types q.index := by
    rw [told, index, linked]
    exact congrArg SourceUnit.bindings (Project.link_unit known)
  obtain ⟨list, modifiers, among, isUse⟩ := mem_annotations member
  have below : use ∈ q.tree.descendants Tree.root :=
    Tree.mem_descendants_trans (Declaration.mem_namesBelow declared).1
      (Tree.mem_descendants_of_child (List.mem_filter.mp modifiers).1
        (Tree.mem_descendants_of_child among (q.tree.mem_descendants_self use)))
  have apart : ∀ id type, q.unit.types.find? (fun type => type.node == some id) = some type →
      (q.tree.kind id).isAnnotationUse = false := by
    rw [told]
    exact Declaration.isAnnotationUse_of_find?_types attached
  have bound : q.unit.bindings.get? use =
      ((q.unit.bindScope q.index use).resolve (q.tree.annotationName use)).map .type := by
    rw [bindings, Bindings.get?_ofTree attached apart q.unit.header q.index below isUse,
      useBinding?_eq]
    rfl
  rw [typeOf?, SourceUnit.binding?, bound]
  cases (q.unit.bindScope q.index use).resolve (q.tree.annotationName use) <;> rfl

/-- For every declared type, each annotation node is recorded once, in order. The bindings of the
annotations agree with the record exactly if both scopes give the written names the same meaning,
which they do unless a name is shadowed; and where they agree, so do the answers to which
annotations the type carries. -/
theorem annotation_views_agree :
    ∃ info, q.unit.typeAt? d.node = some info ∧
      info.annotations.map (·.node) = (q.annotations d.node).map some ∧
      (q.Agrees info ↔ ∀ use ∈ q.annotations d.node,
        (q.unit.bindScope q.index use).resolve (q.tree.annotationName use) =
          (q.unit.recordScope project.nameIndexOf d).resolve (q.tree.annotationName use)) ∧
      ((∀ use ∈ q.annotations d.node, q.unit.Unshadowed project.nameIndexOf q.index d
        (simpleName (q.tree.annotationName use))) → q.Agrees info) ∧
      (q.Agrees info → ∀ target, q.carries d.node target = q.index.carries info target) := by
  have attached : q.tree.Attached := reached.relink.parsed.attached (Table.mem_of_get? known)
  have told : q.unit.types = q.unit.declare project.nameIndexOf :=
    congrArg SourceUnit.types (Project.link_unit known)
  have kinds : ∀ name, q.index.kind? name = project.nameIndexOf.kind? name := by
    rw [index, linked]
    exact Project.kind?_relink reached.parsed
  have recorded := q.annotations_namedType (q.unit.recordScope project.nameIndexOf d) d
  have agrees := agrees_iff recorded
  have bound : ∀ use ∈ q.annotations d.node,
      q.typeOf? use = (q.unit.bindScope q.index use).resolve (q.tree.annotationName use) :=
    fun use member => typeOf?_of_mem_annotations reached linked known declared member
  refine ⟨_, SourceUnit.typeAt?_declared attached told declared, ?_, ?_, fun clear => ?_, ?_⟩
  · refine (congrArg (List.map _) recorded).trans ?_
    rw [List.map_map]
    rfl
  · refine agrees.trans (forall_congr' fun use => forall_congr' fun member => ?_)
    rw [bound use member]
  · refine agrees.mpr fun use member => ?_
    obtain ⟨list, modifiers, among, -⟩ := mem_annotations member
    rw [bound use member]
    exact (clear use member).resolve_use attached told declared kinds modifiers among
  · exact fun same => same.carries_eq recorded

end Linked

def markedText : String :=
  "@interface Foo \x7b\x7d @Foo interface A \x7b\x7d"

def markedParse : Parse where
  tree := .node "program" true ⟨0, 37⟩ none [
    .node "annotation_type_declaration" true ⟨0, 17⟩ none [
      .token "@interface" 0,
      .leaf (some "name") "identifier" 11 14,
      .node "annotation_type_body" true ⟨15, 17⟩ (some "body") [.token "\x7b" 15, .token "\x7d" 16]],
    .node "interface_declaration" true ⟨18, 37⟩ none [
      .node "modifiers" true ⟨18, 22⟩ none [
        .node "marker_annotation" true ⟨18, 22⟩ none [
          .token "@" 18,
          .leaf (some "name") "identifier" 19 22]],
      .token "interface" 23,
      .leaf (some "name") "identifier" 33 34,
      .node "interface_body" true ⟨35, 37⟩ (some "body") [.token "\x7b" 35, .token "\x7d" 36]]]
  hasErrors := false

def markedUnit : SourceUnit :=
  .ofSource "A.java" (Source.ofParse markedText markedParse)

def markedProject : Project :=
  ({ layout := { root := "/project" } } : Project).insertUnit markedUnit

def markedQuery : Query where
  unit := markedUnit.link (markedUnit.declare markedProject.nameIndexOf) markedProject.relink.index
  project := markedProject.relink
  files := {}

def markedType : DeclaredName :=
  { node := 7, name := "A", kind := .interfaceType }

theorem marked_reached : Project.Reached (fun _ => some markedParse) markedProject :=
  .insertSource (.new { root := "/project" }) rfl

theorem marked_known : markedProject.relink.unit? "A.java" = some markedQuery.unit := by
  rw [Project.unit?_relink]
  exact congrArg (Option.map _) (Project.unit?_insertUnit ..)

theorem marked_told :
    markedType ∈ markedQuery.unit.names ∧ markedQuery.annotations markedType.node = [9] ∧
      ∀ d ∈ markedUnit.declare markedProject.nameIndexOf, d.parents = [] := by
  decide +kernel

theorem marked_unknown : markedProject.nameIndexOf.contains (within "A" "Foo") = false := by
  refine Bool.eq_false_iff.mpr fun known => ?_
  rcases Project.contains_nameIndexOf known with ⟨entry, member, listed⟩ | catalogued
  · cases List.mem_singleton.mp member
    revert listed
    decide +kernel
  · revert catalogued
    decide +kernel

theorem marked_unshadowed :
    markedQuery.unit.Unshadowed markedProject.nameIndexOf markedQuery.index markedType
      (simpleName (markedQuery.tree.annotationName 9)) := by
  have name : simpleName (markedQuery.tree.annotationName 9) = "Foo" := by decide +kernel
  have alone : ∀ e ∈ markedQuery.unit.names,
      e.node ∈ markedType.node :: markedQuery.unit.tree.ancestors markedType.node →
        e = markedType := by decide +kernel
  have foreign : Catalogue.contains "A" = false := by decide +kernel
  rw [name]
  refine ⟨by decide +kernel, by decide +kernel, ?_, by decide +kernel, ?_, ?_⟩
  · have kinds := Project.kind?_relink marked_reached.parsed (within "A" "Foo")
    exact (congrArg Option.isSome kinds).trans marked_unknown
  · intro e listed above
    rw [alone e listed above]
    decide
  · intro e listed above
    rw [alone e listed above]
    refine Project.not_inherits_of_parents ?_ foreign _
    intro entry member
    cases List.mem_singleton.mp member
    exact marked_told.2.2

theorem annotation_views_agree_marked :
    ∃ info, markedQuery.unit.typeAt? markedType.node = some info ∧
      markedQuery.annotations markedType.node = [9] ∧ markedQuery.Agrees info ∧
      ∀ target, markedQuery.carries markedType.node target =
        markedQuery.index.carries info target := by
  obtain ⟨declared, annotations, -⟩ := marked_told
  obtain ⟨info, told, -, -, agrees, carries⟩ :=
    annotation_views_agree marked_reached rfl marked_known declared
  have same : markedQuery.Agrees info := agrees fun use member => by
    rw [annotations, List.mem_singleton] at member
    exact member ▸ marked_unshadowed
  exact ⟨info, told, annotations, same, carries same⟩

end Query

end SpringLint
