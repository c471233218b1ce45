import SpringLint.Proofs.Model.Declared

/-! Types told with two indices that know the same names. They come out the same as long as no name
that the source writes is the name of a member type that is inherited only. -/

namespace SpringLint

open TypeScope (within)

/-- A type has a member type of a name through a supertype, and none of its own. -/
def Index.Inherits (index : Index) (outer name : String) : Prop :=
  index.contains (within outer name) = false ∧
    ∃ d, index.get? outer = some d ∧
      ∃ s ∈ index.supertypes d, index.contains (within s.name name) = true

instance (index : Index) (outer name : String) : Decidable (index.Inherits outer name) :=
  match known : index.get? outer with
  | none => isFalse fun ⟨_, _, found, _⟩ => by simp [known] at found
  | some d =>
    decidable_of_iff
      (index.contains (within outer name) = false ∧
        ∃ s ∈ index.supertypes d, index.contains (within s.name name) = true)
      ⟨fun ⟨own, inherited⟩ => ⟨own, d, known, inherited⟩,
        fun ⟨own, e, found, inherited⟩ =>
          ⟨own, Option.some.inj (known.symm.trans found) ▸ inherited⟩⟩

theorem Index.not_inherits_of_parents {index : Index} {outer : String}
    (rootless : ∀ d, index.get? outer = some d → d.parents = []) (name : String) :
    ¬index.Inherits outer name := by
  rintro ⟨-, d, known, s, above, -⟩
  rw [supertypes, rootless d known, supertypesFrom] at above
  cases above

/-- The name by which a node refers to a type, if it does. -/
def Tree.typeUse? (t : Tree) (id : Nat) : Option String :=
  match t.kind id with
  | .typeIdentifier | .scopedTypeIdentifier => some (Text.compact (t.text id))
  | .annotationUse | .bareAnnotationUse => (t.childByField id "name").map t.text
  | _ => none

/-- The part of a written name that a scope looks up. -/
def TypeScope.simpleName (written : String) : String :=
  match Text.cut? '.' (Text.trim written) with
  | some (first, _) => first
  | none => Text.trim written

/-- Two indices know the same names, and give the types `outers` no member type by inheritance under
a name that the source uses. -/
structure Index.Alike (a b : Index) (t : Tree) (outers : List String) : Prop where
  kind : ∀ name, a.kind? name = b.kind? name
  left : ∀ outer ∈ outers, ∀ id written, t.typeUse? id = some written →
    ¬a.Inherits outer (TypeScope.simpleName written)
  right : ∀ outer ∈ outers, ∀ id written, t.typeUse? id = some written →
    ¬b.Inherits outer (TypeScope.simpleName written)

namespace TypeScope

variable {a b : Index} {t : Tree} {outers : List String} {scope : TypeScope} {id : Nat}
  {name written : String}

def through (scope : TypeScope) (index : Index) : TypeScope :=
  { scope with index := index }

@[simp] theorem isVariable_through (index : Index) (name : String) :
    (scope.through index).isVariable name = scope.isVariable name :=
  rfl

theorem through_enterVariables (index : Index) (parameters : List String) :
    (scope.through index).enterVariables parameters =
      (scope.enterVariables parameters).through index :=
  rfl

theorem through_enterType (index : Index) (name : String) (parameters : List String) :
    (scope.through index).enterType name parameters =
      (scope.enterType name parameters).through index :=
  rfl

theorem isVariable_enterType (scope : TypeScope) (type name : String) (parameters : List String) :
    (scope.enterType type parameters).isVariable name =
      (parameters.contains name || scope.isVariable name) :=
  rfl

theorem isVariable_enterVariables (scope : TypeScope) (name : String) (parameters : List String) :
    (scope.enterVariables parameters).isVariable name =
      (parameters.contains name || scope.isVariable name) :=
  rfl

theorem member?_of_not_inherits {outer : String} (plain : ¬scope.index.Inherits outer name) :
    scope.member? outer name =
      if scope.index.contains (within outer name) then some (within outer name) else none := by
  simp only [member?]
  refine ite_congr rfl (fun _ => rfl) fun own => ?_
  cases known : scope.index.get? outer with
  | none => rfl
  | some d =>
    refine List.find?_eq_none.mpr fun inherited member found => plain ?_
    obtain ⟨s, above, rfl⟩ := List.mem_map.mp member
    exact ⟨eq_false_of_ne_true own, d, known, s, above, found⟩

theorem findSome?_congr {α β : Type} {f g : α → Option β} {l : List α}
    (same : ∀ x ∈ l, f x = g x) : l.findSome? f = l.findSome? g := by
  induction l with
  | nil => simp
  | cons x rest ih =>
    obtain ⟨here, later⟩ := List.forall_mem_cons.mp same
    rw [List.findSome?_cons, List.findSome?_cons, here, ih later]

theorem enclosing?_congr {first second : TypeScope} (around : first.enclosing = second.enclosing)
    (contains : first.index.contains = second.index.contains)
    (plain : ∀ outer ∈ second.enclosing,
      ¬first.index.Inherits outer name ∧ ¬second.index.Inherits outer name) :
    first.enclosing? name = second.enclosing? name := by
  rw [enclosing?, enclosing?, around]
  refine findSome?_congr fun outer member => ite_congr rfl (fun _ => rfl) fun _ => ?_
  obtain ⟨left, right⟩ := plain outer member
  rw [member?_of_not_inherits left, member?_of_not_inherits right, contains]

theorem enclosing?_enterType {type : String} (parameters : List String)
    (own : Text.lastPart '.' type ≠ name) (member : scope.index.contains (within type name) = false)
    (plain : ¬scope.index.Inherits type name) :
    (scope.enterType type parameters).enclosing? name = scope.enclosing? name := by
  have absent : (scope.enterType type parameters).member? type name = none := by
    refine (member?_of_not_inherits plain).trans ?_
    exact if_neg (Bool.eq_false_iff.mp member)
  change (type :: scope.enclosing).findSome? _ = _
  rw [List.findSome?_cons, if_neg (by simpa using own), absent]
  rfl

theorem resolve_congr {first second : TypeScope} (package : first.package = second.package)
    (imports : first.imports = second.imports)
    (contains : first.index.contains = second.index.contains)
    (isVariable : first.isVariable (simpleName written) = second.isVariable (simpleName written))
    (around : first.enclosing? (simpleName written) = second.enclosing? (simpleName written)) :
    first.resolve written = second.resolve written := by
  have simple : first.resolveSimple (simpleName written) =
      second.resolveSimple (simpleName written) := by
    simp only [resolveSimple, isVariable, around, imports, package, contains]
  simp only [simpleName] at simple
  simp only [resolve, resolveDotted, contains]
  cases cut : Text.cut? '.' (Text.trim written) with
  | none =>
    rw [cut] at simple
    dsimp only at simple ⊢
    rw [simple]
  | some parts =>
    rw [cut] at simple
    dsimp only at simple ⊢
    rw [simple]

theorem resolve_empty (scope : TypeScope) : scope.resolve "" = none := by
  have empty : (Text.trim "" == "") = true := by decide
  rw [resolve, if_pos empty]

section Alike

variable (alike : a.Alike b t outers) (inside : ∀ outer ∈ scope.enclosing, outer ∈ outers)
include alike

theorem contains_alike : a.contains = b.contains :=
  funext fun name => congrArg Option.isSome (alike.kind name)

include inside

/-- A name that the source uses means the same with both indices. -/
theorem resolve_alike (used : t.typeUse? id = some written) :
    (scope.through a).resolve written = (scope.through b).resolve written := by
  refine resolve_congr rfl rfl (contains_alike alike) rfl
    (enclosing?_congr rfl (contains_alike alike) fun outer member => ?_)
  exact ⟨alike.left outer (inside outer member) id written used,
    alike.right outer (inside outer member) id written used⟩

theorem resolveNode_alike (id : Nat) :
    (scope.through a).resolveNode t id = (scope.through b).resolveNode t id := by
  induction later : t.size - id using Nat.strongRecOn generalizing id with
  | ind _ ih =>
    have below {c : Nat} (child : c ∈ (t.node id).children) :
        (scope.through a).resolveNode t c = (scope.through b).resolveNode t c :=
      ih _ (by have := Tree.child_decreases child; omega) c rfl
    have written (name : t.typeUse? id = some (Text.compact (t.text id))) :
        (if (scope.through a).isVariable (Text.compact (t.text id)) then some Catalogue.object
          else (scope.through a).resolve (Text.compact (t.text id))) =
        if (scope.through b).isVariable (Text.compact (t.text id)) then some Catalogue.object
          else (scope.through b).resolve (Text.compact (t.text id)) :=
      ite_congr rfl (fun _ => rfl) fun _ => resolve_alike alike inside name
    rw [resolveNode, resolveNode]
    split
    · rename_i kind
      exact written (by simp only [Tree.typeUse?, kind])
    · rename_i kind
      exact written (by simp only [Tree.typeUse?, kind])
    · split
      · exact below (mem_of_rawChild? ‹_›)
      · rfl
    · split
      · rw [below (Tree.mem_node_of_childByField ‹_›)]
      · rfl
    · rfl
    · rfl
    · rfl
    · rfl
    · split
      · exact below (mem_of_plainChild? ‹_›)
      · rfl
    · rfl

theorem nameOf_alike (id : Nat) : (scope.through a).nameOf t id = (scope.through b).nameOf t id := by
  rw [nameOf, nameOf, resolveNode_alike alike inside]

end Alike

end TypeScope

namespace Declaration

open TypeScope

variable {a b : Index} {t : Tree} {outers : List String} {scope : TypeScope}
  (alike : a.Alike b t outers) (inside : ∀ outer ∈ scope.enclosing, outer ∈ outers)
include alike inside

theorem annotationUse_alike {id : Nat} (use : (t.kind id).isAnnotationUse = true) :
    annotationUse (scope.through a) t id = annotationUse (scope.through b) t id := by
  have resolved : (scope.through a).resolve (((t.childByField id "name").map t.text).getD "") =
      (scope.through b).resolve (((t.childByField id "name").map t.text).getD "") := by
    cases named : t.childByField id "name" with
    | none => exact (resolve_empty _).trans (resolve_empty _).symm
    | some name =>
      have used : t.typeUse? id = some (t.text name) := by
        unfold Kind.isAnnotationUse at use
        split at use
        · simp [Tree.typeUse?, *]
        · simp [Tree.typeUse?, *]
        · cases use
      exact resolve_alike alike inside used
  simp only [annotationUse, resolved]

theorem modifiers_alike (id : Nat) :
    modifiers (scope.through a) t id = modifiers (scope.through b) t id := by
  unfold modifiers
  split
  · rfl
  · refine congrArg (Prod.mk _) (List.map_congr_left fun c member => ?_)
    exact annotationUse_alike alike inside (List.mem_filter.mp member).2

theorem parameter?_alike (id : Nat) :
    parameter? (scope.through a) t id = parameter? (scope.through b) t id := by
  have single (type name : Nat) :
      parameter (scope.through a) t type name = parameter (scope.through b) t type name := by
    simp only [parameter, nameOf_alike alike inside, isVariable_through]
  simp only [parameter?, single]

theorem parameters_alike (list : Nat) :
    parameters (scope.through a) t list = parameters (scope.through b) t list := by
  have same : parameter? (scope.through a) t = parameter? (scope.through b) t :=
    funext (parameter?_alike alike inside)
  simp only [parameters, same]

theorem method_alike (owner : TypeKind) (id : Nat) :
    method (scope.through a) t owner id = method (scope.through b) t owner id := by
  have inner : ∀ outer ∈ (scope.enterVariables (methodVariables t id)).enclosing,
      outer ∈ outers := inside
  have returns := funext (nameOf_alike alike inner)
  simp only [method, modifiers_alike alike inside, through_enterVariables,
    parameters_alike alike inner, returns]

theorem fields_alike (owner : TypeKind) (id : Nat) :
    fields (scope.through a) t owner id = fields (scope.through b) t owner id := by
  have node : (scope.through a).resolveNode t = (scope.through b).resolveNode t :=
    funext (resolveNode_alike alike inside)
  simp only [fields, modifiers_alike alike inside, node]

theorem components_alike (record : Nat) :
    components (scope.through a) t record = components (scope.through b) t record := by
  simp only [components, parameters_alike alike inside]

theorem methods_alike (owner : TypeKind) (id : Nat) :
    methods (scope.through a) t owner id = methods (scope.through b) t owner id :=
  congrArg (List.map · _) (funext (method_alike alike inside owner))

theorem allFields_alike (owner : TypeKind) (id : Nat) :
    allFields (scope.through a) t owner id = allFields (scope.through b) t owner id :=
  congrArg (List.flatMap · _) (funext (fields_alike alike inside owner))

theorem superclass_alike (declared : DeclaredName) :
    superclass (scope.through a) t declared = superclass (scope.through b) t declared := by
  have node : (scope.through a).resolveNode t = (scope.through b).resolveNode t :=
    funext (resolveNode_alike alike inside)
  simp only [superclass, node]

theorem interfaces_alike (id : Nat) :
    interfaces (scope.through a) t id = interfaces (scope.through b) t id := by
  have node : (scope.through a).resolveNode t = (scope.through b).resolveNode t :=
    funext (resolveNode_alike alike inside)
  simp only [interfaces, node]

theorem namedType_alike (declared : DeclaredName) (listed : declared.name ∈ outers) :
    namedType (scope.through a) t declared = namedType (scope.through b) t declared := by
  have outside : ∀ outer ∈ (scope.enterVariables (typeVariables t declared.node)).enclosing,
      outer ∈ outers := inside
  have within : ∀ outer ∈ (scope.enterType declared.name
      (typeVariables t declared.node)).enclosing, outer ∈ outers :=
    List.forall_mem_cons.mpr ⟨listed, inside⟩
  simp only [namedType, modifiers_alike alike inside, through_enterVariables, through_enterType,
    superclass_alike alike outside, interfaces_alike alike outside, methods_alike alike within,
    allFields_alike alike within, components_alike alike within]

theorem anonymousType?_alike (declared : List DeclaredName) (body : Nat) :
    anonymousType? (scope.through a) t declared body =
      anonymousType? (scope.through b) t declared body := by
  have node : (scope.through a).resolveNode t = (scope.through b).resolveNode t :=
    funext (resolveNode_alike alike inside)
  have kind : (scope.through a).index.kind? = (scope.through b).index.kind? := funext alike.kind
  have parents : anonymousParents? (scope.through a) t declared body =
      anonymousParents? (scope.through b) t declared body := by
    simp only [anonymousParents?, node, kind]
  simp only [anonymousType?, parents, methods_alike alike inside, allFields_alike alike inside]

omit inside in
/-- The types of a source come out the same. -/
theorem typesBelow_alike {declared : List DeclaredName} (listed : ∀ d ∈ declared, d.name ∈ outers)
    (scope : TypeScope) (inside : ∀ outer ∈ scope.enclosing, outer ∈ outers) (id : Nat) :
    typesBelow t declared (scope.through a) id = typesBelow t declared (scope.through b) id := by
  induction later : t.size - id using Nat.strongRecOn generalizing scope id with
  | ind _ ih =>
    have below (inner : TypeScope) (around : ∀ outer ∈ inner.enclosing, outer ∈ outers) :
        (t.namedChildren id).flatMap (typesBelow t declared (inner.through a)) =
          (t.namedChildren id).flatMap (typesBelow t declared (inner.through b)) := by
      rw [List.flatMap_def, List.flatMap_def]
      refine congrArg List.flatten (List.map_congr_left fun c child => ?_)
      have fewer := Tree.child_decreases (Tree.mem_node_of_mem_namedChildren child)
      exact ih _ (by omega) inner around c rfl
    rw [typesBelow_eq, typesBelow_eq]
    cases found : declared.find? fun d => d.node == id with
    | some d =>
      have known := listed d (List.mem_of_find?_eq_some found)
      simp only [namedType_alike alike inside d known, through_enterType]
      rw [below _ (List.forall_mem_cons.mpr ⟨known, inside⟩)]
    | none => simp only [anonymousType?_alike alike inside, below scope inside]

omit inside in
theorem types_alike {header : Header} {declared : List DeclaredName}
    (listed : ∀ d ∈ declared, d.name ∈ outers) :
    types t header declared a = types t header declared b :=
  typesBelow_alike alike listed (TypeScope.ofHeader a header) (fun _ none => nomatch none) Tree.root

end Declaration

end SpringLint
