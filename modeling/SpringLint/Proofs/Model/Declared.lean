import SpringLint.Model.Declaration
import SpringLint.Proofs.Syntax.Traversal

/-! The types that a source declares: which node each one comes from, where it is told, and that they
come in the order of their names. -/

namespace SpringLint.Declaration

variable {t : Tree} {package outer : Option String} {declared : List DeclaredName}
  {scope start : TypeScope} {id x : Nat} {d e : DeclaredName} {type : TypeDecl}

theorem namesBelow_eq (t : Tree) (package outer : Option String) (id : Nat) :
    namesBelow t package outer id =
      (named? t package outer id).toList ++ (t.namedChildren id).flatMap
        (namesBelow t package ((named? t package outer id).map (·.name) <|> outer)) := by
  rw [namesBelow, List.flatMap_subtype (fun _ _ => rfl), List.unattach_attach]

theorem typesBelow_eq (t : Tree) (declared : List DeclaredName) (scope : TypeScope) (id : Nat) :
    typesBelow t declared scope id =
      match declared.find? fun d => d.node == id with
      | some d =>
        namedType scope t d :: (t.namedChildren id).flatMap
          (typesBelow t declared (scope.enterType d.name (typeVariables t d.node)))
      | none =>
        (if t.kind id = .classBody then anonymousType? scope t declared id else none).toList ++
          (t.namedChildren id).flatMap (typesBelow t declared scope) := by
  rw [typesBelow]
  cases declared.find? fun d => d.node == id with
  | some d =>
    dsimp only
    rw [List.flatMap_subtype
      (g := typesBelow t declared (scope.enterType d.name (typeVariables t d.node)))
      (fun _ _ => rfl), List.unattach_attach]
  | none =>
    dsimp only
    rw [List.flatMap_subtype (fun _ _ => rfl), List.unattach_attach]

theorem mem_children_of_mem_namedChildren {c : Nat} (member : c ∈ t.namedChildren id) :
    c ∈ t.children id :=
  (List.mem_filter.mp member).1

/-! Named types by node. -/

theorem node_of_named? (found : named? t package outer id = some d) : d.node = id := by
  simp only [named?, Option.bind_eq_bind, Option.bind_eq_some_iff] at found
  obtain ⟨_, -, _, -, made⟩ := found
  cases made
  rfl

theorem isSome_named? (other : Option String) :
    (named? t package outer id).isSome = (named? t package other id).isSome := by
  simp only [named?]
  cases TypeKind.ofKind? (t.kind id) with
  | none => rfl
  | some kind => cases t.childByField id "name" <;> rfl

theorem mem_namesBelow (member : e ∈ namesBelow t package outer id) :
    e.node ∈ t.descendants id ∧ ∃ around, named? t package around e.node = some e := by
  induction later : t.size - id using Nat.strongRecOn generalizing id outer with
  | ind _ ih =>
    rw [namesBelow_eq] at member
    rcases List.mem_append.mp member with here | inner
    · have made := Option.mem_toList.mp here
      have node := node_of_named? made
      rw [node]
      exact ⟨t.mem_descendants_self id, outer, made⟩
    · obtain ⟨c, child, inner⟩ := List.mem_flatMap.mp inner
      have fewer := Tree.child_decreases (Tree.mem_node_of_mem_namedChildren child)
      obtain ⟨below, made⟩ := ih _ (by omega) inner rfl
      exact ⟨Tree.mem_descendants_of_child (mem_children_of_mem_namedChildren child) below, made⟩

theorem pairwise_namesBelow (attached : t.Attached) (package outer : Option String) (id : Nat) :
    (namesBelow t package outer id).Pairwise fun a b => a.node ≠ b.node := by
  induction later : t.size - id using Nat.strongRecOn generalizing id outer with
  | ind _ ih =>
    rw [namesBelow_eq, List.pairwise_append, List.pairwise_flatMap]
    refine ⟨?_, ⟨?_, ?_⟩, ?_⟩
    · cases named? t package outer id <;> simp
    · intro c child
      have fewer := Tree.child_decreases (Tree.mem_node_of_mem_namedChildren child)
      exact ih _ (by omega) _ c rfl
    · have distinct : (t.namedChildren id).Nodup :=
        ((attached.nodup_children id).filter _).filter _
      refine distinct.imp_of_mem fun {a b} first second other p left q right same => other ?_
      have p_below := (mem_namesBelow left).1
      have q_below := (mem_namesBelow right).1
      rw [← same] at q_below
      exact Tree.disjoint_descendants attached (mem_children_of_mem_namedChildren first)
        (mem_children_of_mem_namedChildren second) p_below q_below
    · intro p here q inner same
      obtain ⟨c, child, inner⟩ := List.mem_flatMap.mp inner
      have node := node_of_named? (Option.mem_toList.mp here)
      have above := Tree.le_of_mem_descendants attached (mem_namesBelow inner).1
      have := Tree.lt_of_mem_node_children (Tree.mem_node_of_mem_namedChildren child)
      omega

theorem find?_names (attached : t.Attached) {header : Header} (member : e ∈ names t header) :
    (names t header).find? (fun d => d.node == e.node) = some e := by
  obtain ⟨before, after, split⟩ := List.append_of_mem member
  have apart := pairwise_namesBelow attached header.package none Tree.root
  change (names t header).Pairwise _ at apart
  rw [split] at apart ⊢
  refine List.find?_eq_some_iff_append.mpr ⟨by simp, before, after, rfl, fun a early => ?_⟩
  simpa using (List.pairwise_append.mp apart).2.2 a early e List.mem_cons_self

theorem eq_of_find?_names {header : Header}
    (found : (names t header).find? (fun d => d.node == id) = some d) :
    d.node = id ∧ ∃ around, named? t header.package around id = some d := by
  have node : d.node = id := by simpa using List.find?_some found
  have made := (mem_namesBelow (List.mem_of_find?_eq_some found)).2
  rw [node] at made
  exact ⟨node, made⟩

theorem anonymousType?_eq_some (told : anonymousType? scope t declared id = some type) :
    type.name = "" ∧ type.node = some id := by
  simp only [anonymousType?, Option.bind_eq_bind, Option.bind_eq_some_iff] at told
  obtain ⟨_, -, made⟩ := told
  cases made
  exact ⟨rfl, rfl⟩

/-! Where a type is told. -/

def openedAt (t : Tree) (declared : List DeclaredName) (id : Nat) (scope : TypeScope) : TypeScope :=
  match declared.find? fun d => d.node == id with
  | some d => scope.enterType d.name (typeVariables t d.node)
  | none => scope

/-- The scope around a node: what the named types above it open. -/
def scopeAround (t : Tree) (declared : List DeclaredName) (start : TypeScope) (id : Nat) :
    TypeScope :=
  (t.ancestors id).foldr (openedAt t declared) start

theorem scopeAround_child (attached : t.Attached) {c : Nat} (child : c ∈ (t.node id).children) :
    scopeAround t declared start c = openedAt t declared id (scopeAround t declared start id) := by
  rw [scopeAround, Tree.ancestors_of_parent (attached.parent_of_mem child)]
  rfl

theorem index_scopeAround (declared : List DeclaredName) (start : TypeScope) (x : Nat) :
    (scopeAround t declared start x).index = start.index := by
  unfold scopeAround
  induction t.ancestors x with
  | nil => rfl
  | cons y above ih =>
    rw [List.foldr_cons, openedAt]
    split <;> exact ih

theorem mem_enclosing_scopeAround (top : start.enclosing = []) {outer : String}
    (inside : outer ∈ (scopeAround t declared start x).enclosing) :
    ∃ d ∈ declared, d.node ∈ t.ancestors x ∧ d.name = outer := by
  unfold scopeAround at inside
  generalize t.ancestors x = above at inside
  induction above with
  | nil =>
    rw [List.foldr_nil, top] at inside
    cases inside
  | cons y above ih =>
    have further : outer ∈ (above.foldr (openedAt t declared) start).enclosing →
        ∃ d ∈ declared, d.node ∈ y :: above ∧ d.name = outer := fun deeper => by
      obtain ⟨d, listed, among, same⟩ := ih deeper
      exact ⟨d, listed, List.mem_cons_of_mem _ among, same⟩
    rw [List.foldr_cons, openedAt] at inside
    split at inside
    · rename_i d found
      rcases List.mem_cons.mp inside with rfl | deeper
      · have node : d.node = y := by simpa using List.find?_some found
        exact ⟨d, List.mem_of_find?_eq_some found, node ▸ List.mem_cons_self, rfl⟩
      · exact further deeper
    · exact further inside

/-- A type is told at its node: a named one in the scope around its declaration, one without a name
at the body of a class. -/
def Told (t : Tree) (declared : List DeclaredName) (start : TypeScope) (type : TypeDecl) : Prop :=
  ∃ x, type.node = some x ∧
    ((∃ d, declared.find? (fun d => d.node == x) = some d ∧
      type = namedType (scopeAround t declared start x) t d) ∨
    t.kind x = .classBody ∧ type.name = "")

theorem told_of_mem (attached : t.Attached)
    (member : type ∈ typesBelow t declared (scopeAround t declared start id) id) :
    Told t declared start type := by
  induction later : t.size - id using Nat.strongRecOn generalizing id with
  | ind _ ih =>
    have inner : type ∈ (t.namedChildren id).flatMap (typesBelow t declared
        (openedAt t declared id (scopeAround t declared start id))) →
        Told t declared start type := fun below => by
      obtain ⟨c, child, below⟩ := List.mem_flatMap.mp below
      have among := Tree.mem_node_of_mem_namedChildren child
      rw [← scopeAround_child attached among] at below
      exact ih _ (by have := Tree.child_decreases among; omega) below rfl
    rw [typesBelow_eq] at member
    unfold openedAt at inner
    cases found : declared.find? fun d => d.node == id with
    | some d =>
      simp only [found] at member inner
      rcases List.mem_cons.mp member with rfl | below
      · have node : d.node = id := by simpa using List.find?_some found
        exact ⟨id, congrArg some node, .inl ⟨d, found, rfl⟩⟩
      · exact inner below
    | none =>
      simp only [found] at member inner
      rcases List.mem_append.mp member with here | below
      · split at here
        · rename_i body
          obtain ⟨nameless, node⟩ := anonymousType?_eq_some (Option.mem_toList.mp here)
          exact ⟨id, node, .inr ⟨body, nameless⟩⟩
        · cases here
      · exact inner below

/-! The order of the types. -/

/-- Whether a type stands at a declaration, and not at the body of a class without a name. -/
def isNamed (t : Tree) (type : TypeDecl) : Bool :=
  type.node.any fun x => (TypeKind.ofKind? (t.kind x)).isSome

theorem isSome_ofKind?_of_named? (found : named? t package outer id = some d) :
    (TypeKind.ofKind? (t.kind id)).isSome = true := by
  simp only [named?, Option.bind_eq_bind, Option.bind_eq_some_iff] at found
  obtain ⟨kind, declares, -⟩ := found
  rw [declares]
  rfl

theorem find?_eq_named?
    (found : ∀ e, named? t package outer id = some e →
      declared.find? (fun d => d.node == e.node) = some e)
    (made : ∀ x d, declared.find? (fun d => d.node == x) = some d →
      ∃ around, named? t package around x = some d) :
    declared.find? (fun d => d.node == id) = named? t package outer id := by
  cases told : named? t package outer id with
  | some e =>
    have again := found e told
    rwa [node_of_named? told] at again
  | none =>
    cases known : declared.find? fun d => d.node == id with
    | none => rfl
    | some d =>
      obtain ⟨around, other⟩ := made id d known
      have same : (named? t package outer id).isSome = (named? t package around id).isSome :=
        isSome_named? around
      rw [told, other] at same
      cases same

theorem isNamed_namedType (scope : TypeScope) (told : named? t package outer id = some d) :
    isNamed t (namedType scope t d) = true := by
  have declares := isSome_ofKind?_of_named? told
  rw [← node_of_named? told] at declares
  exact declares

theorem filter_anonymousType? (scope : TypeScope) :
    (if t.kind id = .classBody then anonymousType? scope t declared id
      else none).toList.filter (isNamed t) = [] := by
  refine List.filter_eq_nil_iff.mpr fun type member => ?_
  split at member
  · rename_i body
    have node := (anonymousType?_eq_some (Option.mem_toList.mp member)).2
    simp [isNamed, node, body, TypeKind.ofKind?]
  · cases member

theorem filter_typesBelow (attached : t.Attached)
    (found : ∀ e ∈ namesBelow t package outer id, declared.find? (fun d => d.node == e.node) = some e)
    (made : ∀ x d, declared.find? (fun d => d.node == x) = some d →
      ∃ around, named? t package around x = some d) :
    (typesBelow t declared (scopeAround t declared start id) id).filter (isNamed t) =
      (namesBelow t package outer id).map fun d =>
        namedType (scopeAround t declared start d.node) t d := by
  induction later : t.size - id using Nat.strongRecOn generalizing id outer with
  | ind _ ih =>
    rw [namesBelow_eq] at found
    obtain ⟨here, inner⟩ := List.forall_mem_append.mp found
    have children : ((t.namedChildren id).flatMap (typesBelow t declared
          (openedAt t declared id (scopeAround t declared start id)))).filter (isNamed t) =
        ((t.namedChildren id).flatMap (namesBelow t package
          ((named? t package outer id).map (·.name) <|> outer))).map fun d =>
            namedType (scopeAround t declared start d.node) t d := by
      rw [List.filter_flatMap, List.map_flatMap, List.flatMap_def, List.flatMap_def]
      refine congrArg List.flatten (List.map_congr_left fun c child => ?_)
      have among := Tree.mem_node_of_mem_namedChildren child
      have fewer := Tree.child_decreases among
      rw [← scopeAround_child attached among]
      exact ih _ (by omega) (fun e member => inner e (List.mem_flatMap.mpr ⟨c, child, member⟩)) rfl
    unfold openedAt at children
    rw [namesBelow_eq, typesBelow_eq, List.map_append, ← children]
    have known := find?_eq_named? (fun e told => here e (Option.mem_toList.mpr told)) made
    cases told : named? t package outer id with
    | some d =>
      have first : scopeAround t declared start d.node = scopeAround t declared start id := by
        rw [node_of_named? told]
      rw [known, told, Option.toList_some, List.map_singleton,
        List.filter_cons_of_pos (isNamed_namedType _ told), first]
      rfl
    | none =>
      rw [known, told, Option.toList_none, List.map_nil, List.nil_append, List.filter_append,
        filter_anonymousType?, List.nil_append]

theorem mem_typesBelow (attached : t.Attached)
    (found : ∀ e ∈ namesBelow t package outer id, declared.find? (fun d => d.node == e.node) = some e)
    (made : ∀ x d, declared.find? (fun d => d.node == x) = some d →
      ∃ around, named? t package around x = some d)
    (member : d ∈ namesBelow t package outer id) :
    namedType (scopeAround t declared start d.node) t d ∈
      typesBelow t declared (scopeAround t declared start id) id := by
  refine (List.mem_filter (p := isNamed t)).mp ?_ |>.1
  rw [filter_typesBelow attached found made]
  exact List.mem_map_of_mem member

theorem scopeAround_root (attached : t.Attached) :
    scopeAround t declared start Tree.root = start := by
  rw [scopeAround, Tree.ancestors_of_root attached.root_parent]
  rfl

theorem told_types (attached : t.Attached) {header : Header} {index : Index}
    (member : type ∈ types t header declared index) :
    Told t declared (TypeScope.ofHeader index header) type := by
  rw [types, ← @scopeAround_root t declared (TypeScope.ofHeader index header) attached] at member
  exact told_of_mem attached member

/-- The named types of a source are those of its names, in their order. -/
theorem filter_types (attached : t.Attached) (header : Header) (index : Index) :
    (types t header (names t header) index).filter (isNamed t) =
      (names t header).map fun d =>
        namedType (scopeAround t (names t header) (TypeScope.ofHeader index header) d.node) t d := by
  have told := @filter_typesBelow t header.package none (names t header)
    (TypeScope.ofHeader index header) Tree.root attached
    (fun _ member => find?_names attached member) (fun _ _ found => (eq_of_find?_names found).2)
  rw [scopeAround_root attached] at told
  exact told

/-- The names that index entries are made of: each type with its kind, nameless ones left out. -/
def label (name : String) (kind : TypeKind) : Option (String × TypeKind) :=
  if name == "" then none else some (name, kind)

theorem labels_types (attached : t.Attached) (header : Header) (index : Index) :
    (types t header (names t header) index).filterMap (fun type => label type.name type.kind) =
      (names t header).filterMap (fun d => label d.name d.kind) := by
  have named : ∀ type ∈ types t header (names t header) index,
      (if isNamed t type then label type.name type.kind else none) = label type.name type.kind := by
    intro type member
    obtain ⟨x, node, ⟨d, listed, -⟩ | ⟨-, nameless⟩⟩ := told_types attached member
    · obtain ⟨-, around, made⟩ := eq_of_find?_names listed
      have declares := isSome_ofKind?_of_named? made
      simp [isNamed, node, declares]
    · simp [label, nameless]
  calc
    _ = ((types t header (names t header) index).filter (isNamed t)).filterMap
        fun type => label type.name type.kind := by
      rw [List.filterMap_filter]
      exact (List.filterMap_congr named).symm
    _ = _ := by
      rw [filter_types attached, List.filterMap_map]
      rfl

theorem find?_types (attached : t.Attached) {header : Header} (index : Index)
    (member : d ∈ names t header) :
    (types t header (names t header) index).find? (fun type => type.node == some d.node) =
      some (namedType (scopeAround t (names t header) (TypeScope.ofHeader index header) d.node) t d) := by
  have told := @mem_typesBelow t _ _ _ (TypeScope.ofHeader index header) _ _ attached
    (fun e listed => find?_names attached listed)
    (fun _ _ found => (eq_of_find?_names found).2) member
  rw [scopeAround_root attached] at told
  cases found : (types t header (names t header) index).find? fun type => type.node == some d.node with
  | none =>
    have absent := List.find?_eq_none.mp found _ told
    exact absurd (beq_self_eq_true _) absent
  | some type =>
    have node : type.node = some d.node := by simpa using List.find?_some found
    obtain ⟨x, own, ⟨e, listed, rfl⟩ | ⟨body, -⟩⟩ :=
      told_types attached (List.mem_of_find?_eq_some found)
    · cases own.symm.trans node
      rw [find?_names attached member] at listed
      cases listed
      rfl
    · cases own.symm.trans node
      obtain ⟨around, made⟩ := (mem_namesBelow member).2
      simp [named?, body, TypeKind.ofKind?] at made

theorem nameless_of_find?_types (attached : t.Attached) {header : Header} {index : Index}
    (other : (names t header).find? (fun d => d.node == x) = none)
    (found : (types t header (names t header) index).find? (fun type => type.node == some x) =
      some type) :
    t.kind x = .classBody ∧ type.name = "" := by
  have node : type.node = some x := by simpa using List.find?_some found
  obtain ⟨y, own, ⟨d, listed, -⟩ | body⟩ := told_types attached (List.mem_of_find?_eq_some found)
  · cases own.symm.trans node
    rw [other] at listed
    cases listed
  · cases own.symm.trans node
    exact body

theorem kind_of_find?_types (attached : t.Attached) {header : Header} {index : Index}
    (found : (types t header (names t header) index).find? (fun type => type.node == some id) =
      some type) : t.kind id = .classBody ∨ (TypeKind.ofKind? (t.kind id)).isSome = true := by
  cases listed : (names t header).find? fun d => d.node == id with
  | none => exact .inl (nameless_of_find?_types attached listed found).1
  | some d =>
    obtain ⟨-, around, made⟩ := eq_of_find?_names listed
    simp only [named?, Option.bind_eq_bind, Option.bind_eq_some_iff] at made
    obtain ⟨kind, declares, -⟩ := made
    exact .inr (by rw [declares]; rfl)

theorem isAnnotationUse_of_find?_types (attached : t.Attached) {header : Header} {index : Index} (id : Nat)
    (type : TypeDecl)
    (found : (types t header (names t header) index).find? (fun type => type.node == some id) =
      some type) : (t.kind id).isAnnotationUse = false := by
  rcases kind_of_find?_types attached found with body | declares
  · rw [body]
    rfl
  · unfold TypeKind.ofKind? at declares
    split at declares <;> simp_all [Kind.isAnnotationUse]

end SpringLint.Declaration
