import SpringLint.Check.Basic
import SpringLint.Proofs.Syntax.Traversal
import SpringLint.Report.Structured

/-! What findings have in common: each is about a problem of its check, as grave as reports say that
problem is, at a node that a walk passes. Nothing is asked of the tree or of the bindings. -/

namespace SpringLint

theorem flatMap_ite_toList {α β : Type} (items : List α) (p : α → Prop) [DecidablePred p]
    (f : α → Option β) :
    (items.flatMap fun x => if p x then (f x).toList else []) =
      (items.filter fun x => p x).filterMap f := by
  induction items with
  | nil => rfl
  | cons x rest ih =>
    rw [List.flatMap_cons, List.filter_cons, ih]
    by_cases holds : p x
    · cases found : f x <;> simp [holds, found]
    · simp [holds]

namespace Tree

variable {t : Tree} {σ α : Type}

/-- A node that neither an edit of its own nor one above it has removed. -/
def Live (t : Tree) (id : Nat) : Prop :=
  id ∈ t.descendants root

namespace Live

variable {id c : Nat}

theorem below (live : t.Live id) (inside : c ∈ t.descendants id) : t.Live c :=
  mem_descendants_trans live inside

theorem child (live : t.Live id) (child : c ∈ t.children id) : t.Live c :=
  live.below (mem_descendants_of_child child (t.mem_descendants_self c))

theorem named (live : t.Live id) (child : c ∈ t.namedChildren id) : t.Live c :=
  live.child (List.mem_filter.mp child).1

theorem field {name : String} (live : t.Live id) (found : t.childByField id name = some c) :
    t.Live c :=
  live.child (List.mem_filter.mp (List.mem_of_head? found)).1

theorem ofKind {kind : Kind} (live : t.Live id) (found : t.childOfKind id kind = some c) : t.Live c :=
  live.child (List.mem_filter.mp (List.mem_of_head? found)).1

theorem parent {p : Nat} (attached : t.Attached) (live : t.Live id)
    (above : (t.node id).parent = some p) : t.Live p := by
  rcases of_mem_descendants attached live with rfl | ⟨-, q, higher, path⟩
  · rw [attached.root_parent] at above
    cases above
  · rw [above] at higher
    obtain rfl := Option.some.inj higher
    exact path

theorem stays {p : Nat} (attached : t.Attached) (live : t.Live id)
    (above : (t.node id).parent = some p) : (t.node id).removed = false := by
  rcases of_mem_descendants attached live with rfl | ⟨stays, -⟩
  · rw [attached.root_parent] at above
    cases above
  · exact stays

theorem member (live : t.Live id) (member : c ∈ t.members id) : t.Live c := by
  unfold members at member
  cases found : t.childByField id "body" with
  | none =>
    rw [found] at member
    cases member
  | some body =>
    rw [found] at member
    obtain ⟨part, among, inside⟩ := List.mem_flatMap.mp member
    have outer := (live.field found).named among
    split at inside
    · exact outer.named inside
    · exact List.mem_singleton.mp inside ▸ outer

end Live

/-- What every step of a walk keeps, the walk keeps. -/
theorem traverse_keeps {visitor : Visitor σ} {P : σ → Prop} {id : Nat}
    (visits : ∀ x ∈ t.descendants id, ∀ state, P state → P (visitor.visit x state).2)
    (leaves : ∀ x ∈ t.descendants id, ∀ state, P state → P (visitor.leave x state)) :
    ∀ state, P state → P (t.traverse visitor id state) := by
  induction id using down_induction (t := t) with
  | step id ih =>
    intro state holds
    have self := t.mem_descendants_self id
    have entered := visits id self state holds
    rw [traverse_eq]
    split
    · apply leaves id self
      refine List.foldlRecOn (motive := P) _ _ entered fun state holds c child => ?_
      have inside {x : Nat} (below : x ∈ t.descendants c) : x ∈ t.descendants id :=
        mem_descendants_of_child child below
      exact ih c (mem_node_of_mem_children child) (fun x below => visits x (inside below))
        (fun x below => leaves x (inside below)) state holds
    · exact entered

theorem walk_keeps {visitor : Visitor σ} {P : σ → Prop}
    (visits : ∀ id, t.Live id → ∀ state, P state → P (visitor.visit id state).2)
    (leaves : ∀ id, t.Live id → ∀ state, P state → P (visitor.leave id state)) {state : σ}
    (initially : P state) : P (t.walk visitor root state) := by
  rw [walk_eq]
  exact traverse_keeps visits leaves state initially

theorem forall_mem_gather {look : Nat → Bool × List α} {P : α → Prop}
    (seen : ∀ id, t.Live id → ∀ x ∈ (look id).2, P x) : ∀ x ∈ t.gather look, P x := by
  apply walk_keeps (P := fun found => ∀ x ∈ found, P x)
  · intro id live found before x member
    rcases List.mem_append.mp member with old | new
    · exact before x old
    · exact seen id live x new
  · exact fun _ _ _ before => before
  · exact fun _ member => nomatch member

/-- A walk that gathers looks at the nodes that it gets to, in order. These are any nodes that unfold
as the walk does: a node, and if the walk goes in there, those that it gets to from its children. -/
theorem traverse_gather (look : Nat → Bool × List α) {nodes : Nat → List Nat}
    (unfolds : ∀ id, nodes id =
      id :: if (look id).1 then (t.children id).flatMap nodes else []) (id : Nat) (found : List α) :
    t.traverse { visit := fun id found => ((look id).1, found ++ (look id).2) } id found =
      found ++ (nodes id).flatMap fun x => (look x).2 := by
  induction id using down_induction (t := t) generalizing found with
  | step id ih =>
    have below : ∀ ids : List Nat, (∀ c ∈ ids, c ∈ t.children id) → ∀ found,
        ids.foldl (fun found c => t.traverse
          { visit := fun id found => ((look id).1, found ++ (look id).2) } c found) found =
          found ++ (ids.flatMap nodes).flatMap fun x => (look x).2 := by
      intro ids
      induction ids with
      | nil => exact fun _ found => (List.append_nil found).symm
      | cons c ids next =>
        intro members found
        obtain ⟨child, others⟩ := List.forall_mem_cons.mp members
        rw [List.foldl_cons, ih c (mem_node_of_mem_children child), next others, List.flatMap_cons,
          List.flatMap_append, List.append_assoc]
    rw [traverse_eq, unfolds, List.flatMap_cons, ← List.append_assoc]
    dsimp only
    split
    · exact below _ (fun _ member => member) _
    · simp

theorem gatherAll_eq (t : Tree) (look : Nat → List α) :
    t.gatherAll look = (t.descendants root).flatMap look := by
  rw [gatherAll, gather, walk_eq]
  exact traverse_gather (fun id => (true, look id)) t.descendants_eq root []

theorem mem_gatherAll {look : Nat → List α} {x : α} :
    x ∈ t.gatherAll look ↔ ∃ id, t.Live id ∧ x ∈ look id := by
  rw [gatherAll_eq, List.mem_flatMap]
  rfl

theorem forall_mem_gatherAll {look : Nat → List α} {P : α → Prop}
    (seen : ∀ id, t.Live id → ∀ x ∈ look id, P x) : ∀ x ∈ t.gatherAll look, P x := by
  intro x member
  obtain ⟨id, live, found⟩ := mem_gatherAll.mp member
  exact seen id live x found

end Tree

namespace Query

variable {q : Query} {declaration use : Nat}

theorem live_annotation (live : q.tree.Live declaration) (member : use ∈ q.annotations declaration) :
    q.tree.Live use := by
  unfold annotations at member
  split at member
  · exact (live.ofKind ‹_›).child (List.mem_filter.mp member).1
  · cases member

theorem live_findUse {name : String} (live : q.tree.Live declaration)
    (found : q.findUse? declaration name = some use) : q.tree.Live use :=
  live_annotation live (List.mem_of_find?_eq_some found)

end Query

/-- A finding that a check may have: its problem is one of the check's, its severity is the usual one,
and its node is live. -/
structure Finding.Belongs (finding : Finding) (check : Check) (t : Tree) : Prop where
  declared : finding.problem ∈ check.problems
  usual : finding.severity = Report.usualSeverity finding.problem
  live : t.Live finding.node

namespace Finding

variable {problem : Problem} {check : Check} {t : Tree} {node : Nat}

theorem belongs_warning {args : List String} (declared : problem ∈ check.problems)
    (usual : .warning = Report.usualSeverity problem) (live : t.Live node) :
    (warning problem node args).Belongs check t :=
  ⟨declared, usual, live⟩

theorem belongs_error (declared : problem ∈ check.problems)
    (usual : .error = Report.usualSeverity problem) (live : t.Live node) :
    (error problem node).Belongs check t :=
  ⟨declared, usual, live⟩

end Finding

namespace Check

theorem guard_bind_eq_some_iff {p : Prop} [Decidable p] {α : Type} {rest : Unit → Option α}
    {x : α} : (guard p >>= rest) = some x ↔ p ∧ rest () = some x := by
  by_cases holds : p
  · rw [guard, if_pos holds]
    exact ⟨fun found => ⟨holds, found⟩, fun both => both.2⟩
  · rw [guard, if_neg holds]
    exact iff_of_false (fun found => nomatch found) fun both => holds both.1

theorem of_guard {p : Prop} [Decidable p] {α : Type} {rest : Unit → Option α} {x : α}
    (found : (guard p >>= rest) = some x) : rest () = some x :=
  (guard_bind_eq_some_iff.mp found).2

variable (q : Query)

theorem belongs_singleConstructor :
    ∀ finding ∈ singleConstructor q, finding.Belongs .autowiredSingleConstructor q.tree := by
  refine Tree.forall_mem_gatherAll fun type live finding found => ?_
  obtain ⟨-, found⟩ := List.mem_ite_nil_right.mp found
  split at found
  · rename_i constructor alone
    obtain ⟨use, used, rfl⟩ := Option.map_eq_some_iff.mp (Option.mem_toList.mp found)
    have member : constructor ∈ q.tree.members type :=
      (List.mem_filter.mp (alone ▸ List.mem_singleton_self constructor)).1
    exact Finding.belongs_warning (by decide) rfl (Query.live_findUse (live.member member) used)
  · cases found

theorem belongs_configurationFields :
    ∀ finding ∈ configurationFields q,
      finding.Belongs .configurationConstructorInjection q.tree := by
  refine Tree.forall_mem_gatherAll fun type live finding found => ?_
  obtain ⟨-, found⟩ := List.mem_ite_nil_right.mp found
  obtain ⟨use, among, rfl⟩ := List.mem_map.mp found
  obtain ⟨field, member, used⟩ := List.mem_filterMap.mp among
  have inside := live.member (List.mem_filter.mp member).1
  exact Finding.belongs_warning (by decide) rfl (Query.live_findUse inside used)

theorem live_failureAnalyzers : ∀ analyzer ∈ failureAnalyzers q, q.tree.Live analyzer.1 := by
  refine Tree.forall_mem_gatherAll fun type live analyzer found => ?_
  obtain ⟨-, found⟩ := List.mem_ite_nil_right.mp found
  split at found
  · obtain ⟨-, here⟩ := List.mem_ite_nil_right.mp found
    exact List.mem_singleton.mp here ▸ live
  · cases found

theorem belongs_unlistedAnalyzers {findings : List Finding}
    (ran : unlistedAnalyzers? q = some findings) :
    ∀ finding ∈ findings, finding.Belongs .failureAnalyzerSpringFactories q.tree := by
  unfold unlistedAnalyzers? at ran
  split at ran
  · split at ran
    · cases ran
      exact fun _ member => nomatch member
    · obtain ⟨manifest, -, result⟩ := Option.bind_eq_some_iff.mp ran
      cases result
      intro finding member
      obtain ⟨analyzer, among, reported⟩ := List.mem_filterMap.mp member
      obtain ⟨name, named, rfl⟩ := Option.map_eq_some_iff.mp reported
      have live := live_failureAnalyzers q analyzer (List.mem_filter.mp among).1
      exact Finding.belongs_error (by decide) rfl (live.field named)
  · cases ran
    exact fun _ member => nomatch member

theorem belongs_mainComponents :
    ∀ finding ∈ mainComponents q, finding.Belongs .mainCodeComponent q.tree := by
  refine Tree.forall_mem_gather fun type live finding found => ?_
  have reported {isFound : Bool}
      (found : finding ∈ if isFound then [Finding.warning .mainCodeComponent type []] else []) :
      finding.Belongs .mainCodeComponent q.tree := by
    obtain ⟨-, here⟩ := List.mem_ite_nil_right.mp found
    exact List.mem_singleton.mp here ▸ Finding.belongs_warning (by decide) rfl live
  split at found
  · exact reported found
  · exact reported found
  · cases found

theorem belongs_functionalInterfaces :
    ∀ finding ∈ functionalInterfaces q, finding.Belongs .missingFunctionalInterface q.tree := by
  intro finding member
  apply Tree.forall_mem_gatherAll ?_ finding (List.mem_ite_nil_right.mp member).2
  intro type live finding found
  obtain ⟨-, found⟩ := List.mem_ite_nil_right.mp found
  obtain ⟨d, -, rest⟩ := Option.bind_eq_some_iff.mp (Option.mem_toList.mp found)
  obtain ⟨name, named, ⟨⟩⟩ := Option.bind_eq_some_iff.mp (of_guard rest)
  exact Finding.belongs_warning (by decide) rfl (live.field named)

theorem belongs_lambdaParameters :
    ∀ finding ∈ lambdaParameters q, finding.Belongs .lambdaParameterParentheses q.tree := by
  refine Tree.forall_mem_gatherAll fun lambda live finding found => ?_
  obtain ⟨-, found⟩ := List.mem_ite_nil_right.mp found
  obtain ⟨parameter, bare, rfl⟩ := Option.map_eq_some_iff.mp (Option.mem_toList.mp found)
  unfold bareParameter? at bare
  split at bare
  · cases bare
  · have named := (Option.filter_eq_some_iff.mp bare).1
    exact Finding.belongs_warning (by decide) rfl (live.field named)

theorem live_loneStatement {lambda statement : Nat} (live : q.tree.Live lambda)
    (lone : loneStatement? q.tree lambda = some statement) : q.tree.Live statement := by
  obtain ⟨body, found, rest⟩ := Option.bind_eq_some_iff.mp lone
  replace rest := of_guard rest
  split at rest
  · rename_i only alone
    cases of_guard (of_guard rest)
    have member : statement ∈ q.tree.namedChildren body :=
      (List.mem_filter.mp (alone ▸ List.mem_singleton_self statement)).1
    exact (live.field found).named member
  · cases rest

theorem belongs_lambdaBlocks :
    ∀ finding ∈ lambdaBlocks q, finding.Belongs .lambdaSingleStatementBlock q.tree := by
  refine Tree.forall_mem_gatherAll fun lambda live finding found => ?_
  obtain ⟨-, found⟩ := List.mem_ite_nil_right.mp found
  obtain ⟨statement, lone, rfl⟩ := Option.map_eq_some_iff.mp (Option.mem_toList.mp found)
  exact Finding.belongs_warning (by decide) rfl (live_loneStatement q live lone)

theorem live_namedParameters {method : Nat} (live : q.tree.Live method) :
    ∀ parameter ∈ namedParameters q.tree method, q.tree.Live parameter.1 := by
  intro parameter member
  unfold namedParameters at member
  split at member
  · cases member
  · rename_i list found
    obtain ⟨id, child, named⟩ := List.mem_filterMap.mp member
    obtain ⟨name, -, rfl⟩ := Option.map_eq_some_iff.mp named
    exact (live.field found).named child

theorem belongs_unusedIn {id : Nat} (body : Nat) (method : Method) (live : q.tree.Live id) :
    ∀ finding ∈ unusedIn q id body method, finding.Belongs .unusedMethodParameter q.tree := by
  intro finding member
  obtain ⟨⟨parameter, name⟩, among, rfl⟩ := List.mem_map.mp member
  have listed := (List.mem_filter.mp among).1
  exact Finding.belongs_warning (by decide) rfl (live_namedParameters q live _ listed)

theorem belongs_unusedParameters :
    ∀ finding ∈ unusedParameters q, finding.Belongs .unusedMethodParameter q.tree := by
  intro finding member
  apply Tree.forall_mem_gather ?_ finding (List.mem_ite_nil_right.mp member).2
  intro id live finding found
  split at found
  · split at found
    · split at found
      · cases found
      · exact belongs_unusedIn q _ _ live finding found
    · cases found
  · cases found

theorem belongs_incompleteAssertions :
    ∀ finding ∈ incompleteAssertions q, finding.Belongs .incompleteAssertThat q.tree := by
  refine Tree.forall_mem_gather fun id live finding found => ?_
  by_cases statement : q.tree.kind id = .expressionStatement
  · rw [if_pos statement] at found
    obtain ⟨expression, first, rest⟩ := Option.bind_eq_some_iff.mp (Option.mem_toList.mp found)
    obtain ⟨call, inside, rest⟩ := Option.bind_eq_some_iff.mp rest
    cases of_guard rest
    have outer := live.named (List.mem_of_head? first)
    exact Finding.belongs_error (by decide) rfl (outer.below (List.mem_of_find?_eq_some inside))
  · rw [if_neg statement] at found
    cases found

theorem belongs_linkLabels :
    ∀ finding ∈ linkLabels q, finding.Belongs .javadocAnnotationLink q.tree := by
  intro finding member
  obtain ⟨link, among, found⟩ := List.mem_filterMap.mp member
  obtain ⟨name, -, rest⟩ := Option.bind_eq_some_iff.mp found
  obtain ⟨target, -, rest⟩ := Option.bind_eq_some_iff.mp rest
  cases of_guard (of_guard rest)
  exact Finding.belongs_warning (by decide) rfl (List.mem_filter.mp among).1

theorem belongs_mismatchedProxying {id : Nat} (live : q.tree.Live id) :
    ∀ finding ∈ mismatchedProxying q id, finding.Belongs .beanMethodProxying q.tree := by
  intro finding found
  obtain ⟨d, -, rest⟩ := Option.bind_eq_some_iff.mp (Option.mem_toList.mp found)
  obtain ⟨superclass, -, rest⟩ := Option.bind_eq_some_iff.mp rest
  obtain ⟨use, first, rest⟩ := Option.bind_eq_some_iff.mp (of_guard rest)
  cases of_guard rest
  have inside := Query.live_annotation live (List.mem_of_find?_eq_some first)
  exact Finding.belongs_error (by decide) rfl inside

theorem belongs_unproxiedCall {id : Nat} (live : q.tree.Live id) :
    ∀ finding ∈ unproxiedCall q id, finding.Belongs .beanMethodProxying q.tree := by
  intro finding found
  unfold unproxiedCall at found
  split at found
  · cases found
  · obtain ⟨-, here⟩ := List.mem_ite_nil_right.mp found
    exact List.mem_singleton.mp here ▸ Finding.belongs_error (by decide) rfl live

theorem belongs_beanProxying :
    ∀ finding ∈ beanProxying q, finding.Belongs .beanMethodProxying q.tree := by
  refine Tree.forall_mem_gatherAll fun id live finding found => ?_
  split at found
  · exact belongs_mismatchedProxying q live finding found
  · exact belongs_unproxiedCall q live finding found
  · cases found

theorem belongs_characterSearches :
    ∀ finding ∈ characterSearches q, finding.Belongs .stringIndexOf q.tree := by
  refine Tree.forall_mem_gatherAll fun id live finding found => ?_
  obtain ⟨-, found⟩ := List.mem_ite_nil_right.mp found
  obtain ⟨callee, -, rest⟩ := Option.bind_eq_some_iff.mp (Option.mem_toList.mp found)
  obtain ⟨method, -, rest⟩ := Option.bind_eq_some_iff.mp rest
  split at rest
  · obtain ⟨name, named, ⟨⟩⟩ := Option.bind_eq_some_iff.mp (of_guard rest)
    exact Finding.belongs_warning (by decide) rfl (live.field named)
  · cases rest

theorem belongs_inheritedBeans {id : Nat} (live : q.tree.Live id) :
    ∀ finding ∈ inheritedBeans q id, finding.Belongs .beanMethodOnNonConfiguration q.tree := by
  intro finding found
  unfold inheritedBeans at found
  split at found
  · cases found
  · obtain ⟨-, found⟩ := List.mem_ite_nil_right.mp found
    obtain ⟨node, anchor, rfl⟩ := Option.map_eq_some_iff.mp (Option.mem_toList.mp found)
    obtain ⟨clause, extended, first⟩ := Option.bind_eq_some_iff.mp anchor
    have outer := live.field extended
    exact Finding.belongs_warning (by decide) rfl (outer.named (List.mem_of_find?_eq_some first))

theorem belongs_declaredBean {id : Nat} (live : q.tree.Live id) :
    ∀ finding ∈ declaredBean q id, finding.Belongs .beanMethodOnNonConfiguration q.tree := by
  intro finding found
  obtain ⟨use, used, rest⟩ := Option.bind_eq_some_iff.mp (Option.mem_toList.mp found)
  obtain ⟨owner, -, rest⟩ := Option.bind_eq_some_iff.mp rest
  obtain ⟨d, -, rest⟩ := Option.bind_eq_some_iff.mp rest
  cases of_guard (of_guard rest)
  exact Finding.belongs_warning (by decide) rfl (Query.live_findUse live used)

theorem belongs_beanConfiguration :
    ∀ finding ∈ beanConfiguration q, finding.Belongs .beanMethodOnNonConfiguration q.tree := by
  refine Tree.forall_mem_gatherAll fun id live finding found => ?_
  split at found
  · exact belongs_inheritedBeans q live finding found
  · exact belongs_declaredBean q live finding found
  · cases found

theorem belongs_exceptionAssertions :
    ∀ finding ∈ exceptionAssertions q,
      finding.Belongs .preferAssertjExceptionAssertions q.tree := by
  apply Tree.walk_keeps (P := fun w : HandlerWalk =>
    ∀ finding ∈ w.found, finding.Belongs .preferAssertjExceptionAssertions q.tree)
  · intro id live w before
    dsimp only
    split
    · exact before
    · split
      · split
        · intro finding member
          rcases List.mem_append.mp member with old | new
          · exact before finding old
          · exact List.mem_singleton.mp new ▸ Finding.belongs_warning (by decide) rfl live
        · exact before
      · exact before
  · intro id live w before
    dsimp only
    split <;> exact before
  · exact fun _ member => nomatch member

variable {q}

/-- Whatever a check finds in a source belongs to the check. -/
theorem belongs_of_run {check : Check} {findings : List Finding} (ran : check.run? q = some findings) :
    ∀ finding ∈ findings, finding.Belongs check q.tree := by
  cases check with
  | autowiredSingleConstructor => exact Option.some.inj ran ▸ belongs_singleConstructor q
  | configurationConstructorInjection => exact Option.some.inj ran ▸ belongs_configurationFields q
  | failureAnalyzerSpringFactories => exact belongs_unlistedAnalyzers q ran
  | mainCodeComponent => exact Option.some.inj ran ▸ belongs_mainComponents q
  | missingFunctionalInterface => exact Option.some.inj ran ▸ belongs_functionalInterfaces q
  | lambdaParameterParentheses => exact Option.some.inj ran ▸ belongs_lambdaParameters q
  | lambdaSingleStatementBlock => exact Option.some.inj ran ▸ belongs_lambdaBlocks q
  | unusedMethodParameter => exact Option.some.inj ran ▸ belongs_unusedParameters q
  | incompleteAssertThat => exact Option.some.inj ran ▸ belongs_incompleteAssertions q
  | javadocAnnotationLink => exact Option.some.inj ran ▸ belongs_linkLabels q
  | beanMethodProxying => exact Option.some.inj ran ▸ belongs_beanProxying q
  | stringIndexOf => exact Option.some.inj ran ▸ belongs_characterSearches q
  | beanMethodOnNonConfiguration => exact Option.some.inj ran ▸ belongs_beanConfiguration q
  | preferAssertjExceptionAssertions => exact Option.some.inj ran ▸ belongs_exceptionAssertions q

end Check

end SpringLint
