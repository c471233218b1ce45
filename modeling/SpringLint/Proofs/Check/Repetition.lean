import SpringLint.Proofs.Check.Anchors

/-! No check reports a problem twice at a node, and each problem that it reports has a place there. -/

namespace SpringLint

namespace Tree

variable {t : Tree}

theorem exists_sublist_traverse {σ α : Type} {visitor : Visitor σ} (found : σ → List α) (mk : Nat → α)
    (visits : ∀ id state, found (visitor.visit id state).2 = found state ∨
      found (visitor.visit id state).2 = found state ++ [mk id])
    (leaves : ∀ id state, found (visitor.leave id state) = found state) (id : Nat) (state : σ) :
    ∃ ids : List Nat, ids.Sublist (t.descendants id) ∧
      found (t.traverse visitor id state) = found state ++ ids.map mk := by
  induction id using down_induction (t := t) generalizing state with
  | step id ih =>
    have here : ∃ own : List Nat, own.Sublist [id] ∧
        found (visitor.visit id state).2 = found state ++ own.map mk := by
      rcases visits id state with same | more
      · exact ⟨[], List.nil_sublist _, by rw [same, List.map_nil, List.append_nil]⟩
      · exact ⟨[id], List.Sublist.refl _, more⟩
    have below : ∀ ids : List Nat, (∀ c ∈ ids, c ∈ t.children id) → ∀ state, ∃ inner : List Nat,
        inner.Sublist (ids.flatMap t.descendants) ∧
          found (ids.foldl (fun state c => t.traverse visitor c state) state) =
            found state ++ inner.map mk := by
      intro ids
      induction ids with
      | nil => exact fun _ state => ⟨[], List.Sublist.refl _, (List.append_nil _).symm⟩
      | cons c rest next =>
        intro members state
        have ⟨child, others⟩ := List.forall_mem_cons.mp members
        have ⟨first, among, made⟩ := ih c (mem_node_of_mem_children child) state
        have ⟨later, further, done⟩ := next others (t.traverse visitor c state)
        refine ⟨first ++ later, among.append further, ?_⟩
        rw [List.foldl_cons, done, made, List.map_append, List.append_assoc]
    have ⟨own, self, made⟩ := here
    rw [traverse_eq, descendants_eq]
    split
    · have ⟨inner, among, done⟩ := below _ (fun _ member => member) (visitor.visit id state).2
      refine ⟨own ++ inner, self.append among, ?_⟩
      rw [leaves, done, made, List.map_append, List.append_assoc]
    · exact ⟨own, self.trans (List.singleton_sublist.mpr List.mem_cons_self), made⟩

end Tree

namespace Check

variable {q : Query} {problem : Problem}

/-- What is found, each problem at a node for it, and at no node twice. -/
structure Anchored (q : Query) (findings : List Finding) : Prop where
  anchor : ∀ f ∈ findings, ∃ site, Anchor q f.problem site f.node
  once : findings.Pairwise fun f g => f.problem = g.problem → f.node ≠ g.node

namespace Anchored

theorem nil (q : Query) : Anchored q [] :=
  ⟨fun _ member => (List.not_mem_nil member).elim, List.Pairwise.nil⟩

variable {findings : List Finding}

theorem of_nodup (same : ∀ f ∈ findings, f.problem = problem) (distinct : (findings.map (·.node)).Nodup)
    (anchor : ∀ node ∈ findings.map (·.node), ∃ site, Anchor q problem site node) :
    Anchored q findings where
  anchor f member := by
    rw [same f member]
    exact anchor f.node (List.mem_map_of_mem member)
  once := by
    apply (List.pairwise_map.mp distinct).imp
    intro f g different _
    exact different

variable (legible : q.tree.Legible) {α : Type} {items : List α} (site : α → Nat)
  (distinct : items.Pairwise fun x y => site x ≠ site y)

include legible distinct

theorem flatMap {look : α → List Finding}
    (anchor : ∀ x ∈ items, ∀ f ∈ look x, Anchor q f.problem (site x) f.node)
    (alone : ∀ x ∈ items, (look x).Pairwise fun f g => f.problem = g.problem → f.node ≠ g.node) :
    Anchored q (items.flatMap look) where
  anchor f member := by
    have ⟨x, among, found⟩ := List.mem_flatMap.mp member
    exact ⟨site x, anchor x among f found⟩
  once := by
    refine List.pairwise_flatMap.mpr ⟨alone, distinct.imp_of_mem ?_⟩
    intro x y among also different f found g more same node
    have left := anchor x among f found
    rw [same, node] at left
    exact different (left.unique legible (anchor y also g more))

theorem filterMap {look : α → Option Finding}
    (anchor : ∀ x ∈ items, ∀ f ∈ look x, Anchor q f.problem (site x) f.node) :
    Anchored q (items.filterMap look) := by
  rw [List.filterMap_eq_flatMap_toList]
  apply flatMap legible site distinct
  · exact fun x among f found => anchor x among f (Option.mem_toList.mp found)
  · intro x _
    cases look x <;> simp

end Anchored

def analyzer? (q : Query) (id : Nat) : Option (Nat × TypeDecl) :=
  ((q.unit.typeAt? id).filter fun d => !d.modifiers.isAbstract &&
    (q.index.implementedInterfaces d).contains failureAnalyzer).map fun d => (id, d)

theorem fst_of_analyzer? {id : Nat} {analyzer : Nat × TypeDecl}
    (found : analyzer? q id = some analyzer) : analyzer.1 = id := by
  have ⟨_, _, made⟩ := Option.map_eq_some_iff.mp found
  rw [← made]

theorem failureAnalyzers_eq (q : Query) : failureAnalyzers q =
    ((q.tree.descendants Tree.root).filter fun id => q.tree.kind id = .classDeclaration).filterMap
      (analyzer? q) := by
  rw [failureAnalyzers, Tree.gatherAll_eq, ← flatMap_ite_toList]
  congr 1
  funext id
  unfold analyzer?
  cases q.unit.typeAt? id with
  | none => rfl
  | some d =>
    rw [Option.filter_some]
    dsimp only
    by_cases listed : (!d.modifiers.isAbstract &&
        (q.index.implementedInterfaces d).contains failureAnalyzer) = true
    · rw [if_pos listed, if_pos listed]
      rfl
    · rw [if_neg listed, if_neg listed]
      rfl

theorem length_ite_le {p : Prop} [Decidable p] {found : List Finding} (short : found.length ≤ 1) :
    (if p then found else []).length ≤ 1 := by
  split
  · exact short
  · exact Nat.zero_le _

theorem mem_namedParameters {method : Nat} {parameter : Nat × Nat}
    (member : parameter ∈ namedParameters q.tree method) :
    ∃ list, q.tree.childByField method "parameters" = some list ∧
      parameter.1 ∈ q.tree.namedChildren list := by
  unfold namedParameters at member
  split at member
  · cases member
  · rename_i list found
    obtain ⟨id, child, named⟩ := List.mem_filterMap.mp member
    obtain ⟨name, _, made⟩ := Option.map_eq_some_iff.mp named
    rw [← made]
    exact ⟨list, found, child⟩

def unusedAt (q : Query) (id : Nat) : List Finding :=
  if (q.tree.kind id).isMethodLike then
    match q.tree.childByField id "body", q.unit.methodAt? id with
    | some body, some (owner, method) =>
      if Query.isOverridable method owner || q.overrides method owner then []
      else unusedIn q id body method
    | _, _ => []
  else []

theorem unusedParameters_eq (main : q.location = .main) : unusedParameters q =
    q.tree.gather fun id => (!(q.tree.kind id).isMethodLike, unusedAt q id) := by
  rw [unusedParameters, if_pos main]
  congr 1
  funext id
  unfold unusedAt
  cases (q.tree.kind id).isMethodLike with
  | false => rfl
  | true =>
    rw [if_pos rfl, if_pos rfl]
    cases q.tree.childByField id "body" with
    | none => rfl
    | some body =>
      cases q.unit.methodAt? id with
      | none => rfl
      | some declared =>
        dsimp only
        split <;> rfl

theorem mem_unusedAt {id : Nat} (some : unusedAt q id ≠ []) : (q.tree.kind id).isMethodLike = true ∧
    ∃ body method, unusedAt q id = unusedIn q id body method := by
  unfold unusedAt at some ⊢
  split at some
  · rename_i kind
    rw [if_pos kind]
    refine ⟨kind, ?_⟩
    split at some
    · split at some
      · exact absurd rfl some
      · rename_i body owner method _ _ taken
        exact ⟨body, method, if_neg taken⟩
    · exact absurd rfl some
  · exact absurd rfl some

theorem mem_mismatchedProxying {id : Nat} {f : Finding} (found : f ∈ mismatchedProxying q id) :
    ∃ use ∈ q.annotations id, f = .error .mismatchedBeanMethodProxying use := by
  have ⟨d, _, rest⟩ := Option.bind_eq_some_iff.mp (Option.mem_toList.mp found)
  have ⟨superclass, _, rest⟩ := Option.bind_eq_some_iff.mp rest
  have ⟨use, first, rest⟩ := Option.bind_eq_some_iff.mp (of_guard rest)
  cases of_guard rest
  exact ⟨use, List.mem_of_find?_eq_some first, rfl⟩

theorem mem_unproxiedCall {id : Nat} {f : Finding} (found : f ∈ unproxiedCall q id) :
    f = .error .invocationOfUnproxiedBeanMethod id := by
  unfold unproxiedCall at found
  split at found
  · cases found
  · exact List.mem_singleton.mp (List.mem_ite_nil_right.mp found).2

theorem exists_exceptionAssertions (q : Query) :
    ∃ calls : List Nat, calls.Sublist (q.tree.descendants Tree.root) ∧
      exceptionAssertions q =
        calls.map fun call => .warning .assertjExceptionAssertionSupportNotUsed call [] := by
  unfold exceptionAssertions
  dsimp only
  rw [Tree.walk_eq]
  refine Tree.exists_sublist_traverse HandlerWalk.found
    (fun call => .warning .assertjExceptionAssertionSupportNotUsed call []) ?_ ?_ Tree.root {}
  · intro id w
    dsimp only
    split
    · exact .inl rfl
    · split
      · split
        · exact .inr rfl
        · exact .inl rfl
      · exact .inl rfl
  · intro id w
    dsimp only
    split <;> rfl

section Gathered

variable (legible : q.tree.Legible)

include legible

theorem anchored_gatherAll {look : Nat → List Finding}
    (anchor : ∀ id, q.tree.Live id → ∀ f ∈ look id, Anchor q f.problem id f.node)
    (alone : ∀ id, q.tree.Live id →
      (look id).Pairwise fun f g => f.problem = g.problem → f.node ≠ g.node) :
    Anchored q (q.tree.gatherAll look) := by
  rw [Tree.gatherAll_eq]
  exact .flatMap legible id (Tree.nodup_descendants legible.attached Tree.root) anchor alone

theorem anchored_gatherAll_single {look : Nat → List Finding}
    (anchor : ∀ id, q.tree.Live id → ∀ f ∈ look id, Anchor q f.problem id f.node)
    (single : ∀ id, (look id).length ≤ 1) : Anchored q (q.tree.gatherAll look) := by
  refine anchored_gatherAll legible anchor fun id _ => ?_
  have short := single id
  generalize look id = found at short
  match found with
  | [] => exact List.Pairwise.nil
  | [f] => exact List.pairwise_singleton _ f

theorem anchored_singleConstructor : Anchored q (singleConstructor q) := by
  apply anchored_gatherAll_single legible
  · intro type live f found
    have ⟨kind, found⟩ := List.mem_ite_nil_right.mp found
    split at found
    · rename_i constructor alone
      have ⟨use, used, made⟩ := Option.map_eq_some_iff.mp (Option.mem_toList.mp found)
      have member : constructor ∈ q.tree.members type :=
        (List.mem_filter.mp (alone ▸ List.mem_singleton_self constructor)).1
      rw [← made]
      exact ⟨kind, constructor, member, List.mem_of_find?_eq_some used⟩
    · cases found
  · intro type
    apply length_ite_le
    split
    · exact Option.length_toList_le
    · exact Nat.zero_le _

theorem anchored_configurationFields : Anchored q (configurationFields q) := by
  apply anchored_gatherAll legible
  · intro type live f found
    have ⟨condition, found⟩ := List.mem_ite_nil_right.mp found
    have ⟨use, among, made⟩ := List.mem_map.mp found
    have ⟨field, member, used⟩ := List.mem_filterMap.mp among
    have kind := of_decide_eq_true (Bool.and_eq_true_iff.mp condition).1
    rw [← made]
    exact ⟨kind, field, (List.mem_filter.mp member).1, List.mem_of_find?_eq_some used⟩
  · intro type live
    split
    · rw [List.pairwise_map, List.pairwise_filterMap]
      have distinct := (legible.nodup_members live).filter fun m => q.tree.kind m = .fieldDeclaration
      apply distinct.imp
      intro m k different use used other also _ same
      have left := Query.grandparent_of_mem_annotations legible.attached
        (List.mem_of_find?_eq_some used)
      have right := Query.grandparent_of_mem_annotations legible.attached
        (List.mem_of_find?_eq_some also)
      have same : use = other := same
      exact different (left.unique (same ▸ right))
    · exact List.Pairwise.nil

theorem anchored_unlistedAnalyzers {findings : List Finding}
    (ran : unlistedAnalyzers? q = some findings) : Anchored q findings := by
  unfold unlistedAnalyzers? at ran
  split at ran
  · split at ran
    · cases ran
      exact .nil q
    · have ⟨manifest, _, result⟩ := Option.bind_eq_some_iff.mp ran
      cases result
      have classes := (Tree.nodup_descendants legible.attached Tree.root).filter fun id =>
        q.tree.kind id = .classDeclaration
      have distinct : (failureAnalyzers q).Pairwise fun x y => x.1 ≠ y.1 := by
        rw [failureAnalyzers_eq, List.pairwise_filterMap]
        apply classes.imp
        intro a b different x found y also
        rw [fst_of_analyzer? found, fst_of_analyzer? also]
        exact different
      apply Anchored.filterMap legible Prod.fst (distinct.filter _)
      intro analyzer among f reported
      have listed := (List.mem_filter.mp among).1
      rw [failureAnalyzers_eq] at listed
      have ⟨type, member, found⟩ := List.mem_filterMap.mp listed
      have kind : q.tree.kind type = .classDeclaration := of_decide_eq_true (List.mem_filter.mp member).2
      have ⟨name, named, made⟩ := Option.map_eq_some_iff.mp reported
      rw [← made, fst_of_analyzer? found]
      exact ⟨kind ▸ rfl, fst_of_analyzer? found ▸ named⟩
  · cases ran
    exact .nil q

theorem anchored_mainComponents : Anchored q (mainComponents q) := by
  apply Anchored.of_nodup
  · intro f member
    exact List.mem_singleton.mp (belongs_mainComponents q f member).declared
  · exact nodup_reportedComponents legible.attached
  · intro node member
    have ⟨component, apart⟩ := (mem_reportedComponents_iff legible.attached).mp member
    exact ⟨node, rfl, component.kind, apart⟩

theorem anchored_functionalInterfaces : Anchored q (functionalInterfaces q) := by
  by_cases main : q.location = .main
  · rw [functionalInterfaces, if_pos main]
    apply anchored_gatherAll_single legible
    · intro type _ f found
      have ⟨condition, found⟩ := List.mem_ite_nil_right.mp found
      have ⟨d, _, rest⟩ := Option.bind_eq_some_iff.mp (Option.mem_toList.mp found)
      have ⟨name, named, made⟩ := Option.bind_eq_some_iff.mp (of_guard rest)
      cases made
      rw [Bool.and_eq_true, Bool.and_eq_true, decide_eq_true_eq] at condition
      exact ⟨condition.1.1 ▸ rfl, named⟩
    · exact fun type => length_ite_le Option.length_toList_le
  · rw [functionalInterfaces, if_neg main]
    exact .nil q

theorem anchored_lambdaParameters : Anchored q (lambdaParameters q) := by
  apply anchored_gatherAll_single legible
  · intro lambda _ f found
    have ⟨_, found⟩ := List.mem_ite_nil_right.mp found
    have ⟨parameter, bare, made⟩ := Option.map_eq_some_iff.mp (Option.mem_toList.mp found)
    rw [← made]
    unfold bareParameter? at bare
    split at bare
    · cases bare
    · have ⟨named, kind⟩ := Option.filter_eq_some_iff.mp bare
      exact ⟨named, of_decide_eq_true kind⟩
  · exact fun lambda => length_ite_le Option.length_toList_le

theorem anchored_lambdaBlocks : Anchored q (lambdaBlocks q) := by
  apply Anchored.of_nodup
  · intro f member
    exact List.mem_singleton.mp (belongs_lambdaBlocks q f member).declared
  · exact nodup_reportedBlocks legible.attached
  · intro statement member
    have ⟨⟨lambda, lone⟩, shown⟩ := mem_reportedBlocks_iff.mp member
    exact ⟨lambda, lone, shown⟩

theorem nodup_namedParameters (method : Nat) :
    ((namedParameters q.tree method).map Prod.fst).Nodup := by
  unfold namedParameters
  split
  · exact List.nodup_nil
  · rename_i list found
    have distinct : (q.tree.namedChildren list).Nodup :=
      ((legible.attached.nodup_children list).filter _).filter _
    rw [List.map_filterMap]
    apply List.pairwise_filterMap.mpr
    apply distinct.imp
    intro a b different x taken y also same
    obtain ⟨left, made, first⟩ := Option.map_eq_some_iff.mp taken
    obtain ⟨right, done, second⟩ := Option.map_eq_some_iff.mp also
    obtain ⟨_, _, here⟩ := Option.map_eq_some_iff.mp made
    obtain ⟨_, _, there⟩ := Option.map_eq_some_iff.mp done
    rw [← here] at first
    rw [← there] at second
    exact different (first.trans (same.trans second.symm))

theorem anchored_unusedParameters : Anchored q (unusedParameters q) := by
  by_cases main : q.location = .main
  · rw [unusedParameters_eq main, Tree.gather_eq legible.attached]
    apply Anchored.flatMap legible id ((Tree.nodup_descendants legible.attached Tree.root).filter _)
    · intro method among f found
      have ⟨kind, body, declared, same⟩ := mem_unusedAt (List.ne_nil_of_mem found)
      rw [same] at found
      have ⟨parameter, listed, made⟩ := List.mem_map.mp found
      have ⟨list, under, member⟩ := mem_namedParameters (List.mem_filter.mp listed).1
      have apart := List.all_eq_true.mp (List.mem_filter.mp among).2
      rw [← made]
      exact ⟨kind, fun a above => by simpa using apart a above, list, under, member⟩
    · intro method _
      by_cases empty : unusedAt q method = []
      · dsimp only
        rw [empty]
        exact List.Pairwise.nil
      · have ⟨_, body, declared, same⟩ := mem_unusedAt empty
        dsimp only
        rw [same, unusedIn, List.pairwise_map]
        have distinct := List.pairwise_map.mp (nodup_namedParameters legible method)
        apply (distinct.filter _).imp
        intro a b different _
        exact different
  · rw [unusedParameters, if_neg main]
    exact .nil q

theorem anchored_incompleteAssertions : Anchored q (incompleteAssertions q) := by
  rw [incompleteAssertions_eq q legible.attached, List.map_filterMap]
  have distinct : q.tree.outerStatements.Nodup :=
    (Tree.nodup_descendants legible.attached Tree.root).filter _
  apply Anchored.filterMap legible id distinct
  intro statement among f reported
  have ⟨call, found, made⟩ := Option.map_eq_some_iff.mp reported
  rw [← made]
  exact ⟨among, found⟩

theorem anchored_linkLabels : Anchored q (linkLabels q) := by
  have distinct := (Tree.nodup_descendants legible.attached Tree.root).filter fun id =>
    q.tree.kind id = .javadocLink
  apply Anchored.filterMap legible id distinct
  intro link among f found
  have ⟨name, _, rest⟩ := Option.bind_eq_some_iff.mp found
  have ⟨target, _, rest⟩ := Option.bind_eq_some_iff.mp rest
  cases of_guard (of_guard rest)
  exact ⟨rfl, of_decide_eq_true (List.mem_filter.mp among).2⟩

theorem anchored_beanProxying : Anchored q (beanProxying q) := by
  apply anchored_gatherAll_single legible
  · intro id live f found
    split at found
    · have ⟨use, used, made⟩ := mem_mismatchedProxying found
      rw [made]
      exact used
    · rw [mem_unproxiedCall found]
      rfl
    · cases found
  · intro id
    split
    · exact Option.length_toList_le
    · unfold unproxiedCall
      split
      · exact Nat.zero_le _
      · exact length_ite_le (Nat.le_refl _)
    · exact Nat.zero_le _

theorem anchored_characterSearches : Anchored q (characterSearches q) := by
  apply Anchored.of_nodup
  · intro f member
    exact List.mem_singleton.mp (belongs_characterSearches q f member).declared
  · exact nodup_reportedSearches legible.attached
  · intro name member
    have listed : name ∈ reportedSearches q := member
    rw [reportedSearches_eq] at listed
    have ⟨call, among, reported⟩ := List.mem_filterMap.mp listed
    have ⟨f, found, same⟩ := Option.map_eq_some_iff.mp reported
    have kind : q.tree.kind call = .methodInvocation := of_decide_eq_true (List.mem_filter.mp among).2
    exact ⟨call, kind ▸ rfl, same ▸ childByField_of_search? found⟩

theorem anchored_beanConfiguration : Anchored q (beanConfiguration q) := by
  apply anchored_gatherAll_single legible
  · intro id live f found
    split at found
    · rename_i kind
      unfold inheritedBeans at found
      split at found
      · cases found
      · have ⟨_, found⟩ := List.mem_ite_nil_right.mp found
        have ⟨node, anchor, made⟩ := Option.map_eq_some_iff.mp (Option.mem_toList.mp found)
        have ⟨clause, extended, first⟩ := Option.bind_eq_some_iff.mp anchor
        rw [← made]
        exact ⟨kind, clause, extended, List.mem_of_find?_eq_some first⟩
    · have ⟨use, used, rest⟩ := Option.bind_eq_some_iff.mp (Option.mem_toList.mp found)
      have ⟨owner, _, rest⟩ := Option.bind_eq_some_iff.mp rest
      have ⟨d, _, rest⟩ := Option.bind_eq_some_iff.mp rest
      cases of_guard (of_guard rest)
      exact List.mem_of_find?_eq_some used
    · cases found
  · intro id
    split
    · unfold inheritedBeans
      split
      · exact Nat.zero_le _
      · exact length_ite_le Option.length_toList_le
    · exact Option.length_toList_le
    · exact Nat.zero_le _

theorem anchored_exceptionAssertions : Anchored q (exceptionAssertions q) := by
  have ⟨calls, among, made⟩ := exists_exceptionAssertions q
  rw [made]
  constructor
  · intro f member
    have ⟨call, _, here⟩ := List.mem_map.mp member
    rw [← here]
    exact ⟨call, rfl⟩
  · rw [List.pairwise_map]
    apply ((Tree.nodup_descendants legible.attached Tree.root).sublist among).imp
    intro a b different _
    exact different

/-- Whatever a check reports is anchored. -/
theorem anchored_of_run {check : Check} {findings : List Finding} (ran : check.run? q = some findings) :
    Anchored q findings := by
  cases check with
  | autowiredSingleConstructor => exact Option.some.inj ran ▸ anchored_singleConstructor legible
  | configurationConstructorInjection =>
    exact Option.some.inj ran ▸ anchored_configurationFields legible
  | failureAnalyzerSpringFactories => exact anchored_unlistedAnalyzers legible ran
  | mainCodeComponent => exact Option.some.inj ran ▸ anchored_mainComponents legible
  | missingFunctionalInterface => exact Option.some.inj ran ▸ anchored_functionalInterfaces legible
  | lambdaParameterParentheses => exact Option.some.inj ran ▸ anchored_lambdaParameters legible
  | lambdaSingleStatementBlock => exact Option.some.inj ran ▸ anchored_lambdaBlocks legible
  | unusedMethodParameter => exact Option.some.inj ran ▸ anchored_unusedParameters legible
  | incompleteAssertThat => exact Option.some.inj ran ▸ anchored_incompleteAssertions legible
  | javadocAnnotationLink => exact Option.some.inj ran ▸ anchored_linkLabels legible
  | beanMethodProxying => exact Option.some.inj ran ▸ anchored_beanProxying legible
  | stringIndexOf => exact Option.some.inj ran ▸ anchored_characterSearches legible
  | beanMethodOnNonConfiguration => exact Option.some.inj ran ▸ anchored_beanConfiguration legible
  | preferAssertjExceptionAssertions => exact Option.some.inj ran ▸ anchored_exceptionAssertions legible

end Gathered

theorem args_of_run {check : Check} {findings : List Finding} (ran : check.run? q = some findings)
    {f : Finding} (member : f ∈ findings) (calls : f.problem.isOfCalls = true) : f.args = [] := by
  have declared := (belongs_of_run ran f member).declared
  cases check with
  | beanMethodProxying =>
    cases ran
    have ⟨id, _, found⟩ := Tree.mem_gatherAll.mp member
    split at found
    · have ⟨_, _, made⟩ := mem_mismatchedProxying found
      rw [made]
      rfl
    · rw [mem_unproxiedCall found]
      rfl
    · cases found
  | preferAssertjExceptionAssertions =>
    cases ran
    have ⟨ids, _, made⟩ := exists_exceptionAssertions q
    rw [made] at member
    have ⟨call, _, here⟩ := List.mem_map.mp member
    rw [← here]
    rfl
  | beanMethodOnNonConfiguration =>
    exfalso
    rcases List.mem_cons.mp declared with same | other
    · rw [same] at calls
      cases calls
    · rw [List.mem_singleton.mp other] at calls
      cases calls
  | _ =>
    rw [List.mem_singleton.mp declared] at calls
    cases calls

end Check

end SpringLint
