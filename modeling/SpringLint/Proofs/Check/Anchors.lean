import SpringLint.Proofs.Check.Components
import SpringLint.Proofs.Check.LambdaBlocks
import SpringLint.Proofs.Check.Searches
import SpringLint.Proofs.Syntax.Parts

/-! Where problems are reported: the nodes that a problem has a place at. What is reported at a node is
reported for one site, and of two nodes with the same problem the inner one starts further on, unless the
problem is one of calls: a call starts where its receiver does, which can be a call itself. -/

namespace SpringLint

namespace Problem

/-- Whether the problem is reported at calls as wholes, those among their receivers too. -/
def isOfCalls : Problem → Bool
  | .invocationOfUnproxiedBeanMethod | .assertjExceptionAssertionSupportNotUsed => true
  | _ => false

end Problem

namespace Tree

variable {t : Tree} {a b n : Nat}

/-- A tree as it is read from what a grammar gives, without empty nodes. -/
structure Legible (t : Tree) : Prop where
  attached : t.Attached
  untouched : t.Untouched
  spaced : t.Spaced
  words : t.LeafWords
  formed : t.Formed
  links : ∀ a b, t.kind a = .javadocLink → t.kind b = .javadocLink → a ∉ t.ancestors b
  proper : ∀ id, t.Live id → (t.span id).start < (t.span id).stop

def Grandparent (t : Tree) (outer inner : Nat) : Prop :=
  ∃ p, (t.node inner).parent = some p ∧ (t.node p).parent = some outer

theorem Grandparent.unique (first : t.Grandparent a n) (second : t.Grandparent b n) : a = b := by
  have ⟨p, above, higher⟩ := first
  have ⟨r, same, top⟩ := second
  rw [above] at same
  cases same
  exact Option.some.inj (higher.symm.trans top)

theorem Grandparent.mem_ancestors (outer : t.Grandparent a n) : a ∈ t.ancestors n := by
  have ⟨p, above, higher⟩ := outer
  rw [ancestors_of_parent above, ancestors_of_parent higher]
  exact List.mem_cons_of_mem _ List.mem_cons_self

theorem childByField_unique (attached : t.Attached) {first second : String}
    (left : t.childByField a first = some n) (right : t.childByField b second = some n) : a = b := by
  have above := attached.parent_of_mem (mem_node_of_childByField left)
  have also := attached.parent_of_mem (mem_node_of_childByField right)
  exact Option.some.inj (above.symm.trans also)

namespace Legible

variable (legible : t.Legible)

include legible

theorem eq_of_mem_members {m : Nat} (first : t.kind a = .classDeclaration)
    (second : t.kind b = .classDeclaration) (left : m ∈ t.members a) (right : m ∈ t.members b) :
    a = b := by
  have ⟨body, found, member⟩ := mem_members legible.attached left
  have ⟨other, also, among⟩ := mem_members legible.attached right
  have named {type c : Nat} (kind : t.kind type = .classDeclaration)
      (found : t.childByField type "body" = some c) : t.kind c = .classBody :=
    legible.formed.kind_of_childByField found (by rw [kind]; rfl)
  suffices same : body = other from childByField_unique legible.attached found (same ▸ also)
  rcases member with above | ⟨part, second, higher, above⟩
  · rcases among with upper | ⟨piece, enum, _, upper⟩
    · exact Option.some.inj (above.symm.trans upper)
    · have kind := named first found
      rw [Option.some.inj (above.symm.trans upper), enum] at kind
      cases kind
  · rcases among with upper | ⟨piece, _, top, upper⟩
    · have kind := named ‹_› also
      rw [← Option.some.inj (above.symm.trans upper), second] at kind
      cases kind
    · rw [Option.some.inj (above.symm.trans upper)] at higher
      exact Option.some.inj (higher.symm.trans top)

theorem nodup_members (live : t.Live a) : (t.members a).Nodup := by
  apply (pairwise_members legible.spaced a).imp_of_mem
  intro m n member _ before same
  have wide := legible.proper m (live.member member)
  rw [← same] at before
  omega

theorem start_lt_of_isOpened (opened : (t.kind a).isOpened = true) (live : t.Live b)
    (above : a ∈ t.ancestors b) (named : (t.kind b).isToken = false) :
    (t.span a).start < (t.span b).start := by
  have inside : b < t.size := lt_of_mem_descendants legible.attached.nonempty live
  have early := lt_of_mem_ancestors above
  have outer : t.Live a := mem_descendants_root legible.attached legible.untouched (by omega)
  apply legible.spaced.start_lt_of_isOpened legible.attached legible.words legible.formed opened inside
    above named
  intro c child
  rw [← children_of_untouched legible.untouched] at child
  exact legible.proper c (outer.child child)

end Legible

end Tree

namespace Query

variable {q : Query} {declaration use : Nat}

theorem grandparent_of_mem_annotations (attached : q.tree.Attached)
    (member : use ∈ q.annotations declaration) : q.tree.Grandparent declaration use := by
  unfold annotations at member
  split at member
  · rename_i list found
    have inner := Tree.mem_node_of_mem_children (List.mem_filter.mp member).1
    have outer := Tree.mem_node_of_mem_children (List.mem_filter.mp (List.mem_of_head? found)).1
    exact ⟨list, attached.parent_of_mem inner, attached.parent_of_mem outer⟩
  · cases member

theorem isOpened_of_mem_annotations (member : use ∈ q.annotations declaration) :
    (q.tree.kind use).isOpened = true ∧ (q.tree.kind use).isToken = false := by
  unfold annotations at member
  split at member
  · have kind := (List.mem_filter.mp member).2
    cases here : q.tree.kind use <;> rw [here] at kind <;> first | exact ⟨rfl, rfl⟩ | cases kind
  · cases member

end Query

namespace Check

/-- The node at which a problem is reported, for a node that the check looks at. -/
def Anchor (q : Query) : Problem → Nat → Nat → Prop
  | .autowiredSingleConstructor, type, use | .configurationClassConstructorInjection, type, use =>
    q.tree.kind type = .classDeclaration ∧ ∃ m ∈ q.tree.members type, use ∈ q.annotations m
  | .failureAnalyzerNotInSpringFactories, site, name | .missingFunctionalInterface, site, name
  | .singleCharacterStringLiteralIndexOf, site, name =>
    (q.tree.kind site).isPlainlyNamed = true ∧ q.tree.childByField site "name" = some name
  | .mainCodeComponent, type, node =>
    node = type ∧ isInspected (q.tree.kind type) = true ∧
      ∀ a ∈ q.tree.ancestors type, isInspected (q.tree.kind a) = false
  | .missingParenthesesAroundLambdaParameter, lambda, parameter =>
    q.tree.childByField lambda "parameters" = some parameter ∧ q.tree.kind parameter = .identifier
  | .lambdaExpressionBodyIsSingleStatementBlock, lambda, statement =>
    Lone q.tree lambda statement ∧ ¬ Exempt q.tree statement
  | .unusedMethodParameter, method, parameter =>
    (q.tree.kind method).isMethodLike = true ∧
      (∀ a ∈ q.tree.ancestors method, (q.tree.kind a).isMethodLike = false) ∧
        ∃ list, q.tree.childByField method "parameters" = some list ∧
          parameter ∈ q.tree.namedChildren list
  | .incompleteUseOfAssertThat, statement, call =>
    statement ∈ q.tree.outerStatements ∧ unfinished? q statement = some call
  | .missingPackageInfo, _, _ => False
  | .incorrectAnnotationLink, link, node => node = link ∧ q.tree.kind link = .javadocLink
  | .invocationOfUnproxiedBeanMethod, call, node
  | .assertjExceptionAssertionSupportNotUsed, call, node => node = call
  | .mismatchedBeanMethodProxying, declaration, use
  | .beanMethodOnNonConfigurationClass, declaration, use => use ∈ q.annotations declaration
  | .nonConfigurationClassHasInheritedBeanMethods, type, node =>
    q.tree.kind type = .classDeclaration ∧
      ∃ clause, q.tree.childByField type "superclass" = some clause ∧
        node ∈ q.tree.namedChildren clause

variable {q : Query} {problem : Problem} {a b m n : Nat}

theorem outermost_of_unfinished (attached : q.tree.Attached) {statement call : Nat}
    (among : statement ∈ q.tree.outerStatements) (reported : unfinished? q statement = some call) :
    q.tree.Outermost statement call := by
  have ⟨_, outer⟩ := Tree.mem_outerStatements.mp among
  exact ⟨List.mem_cons_of_mem _ (inside_of_unfinished attached reported), outer.kind, outer.first⟩

theorem eq_of_outermost (method : (q.tree.kind a).isMethodLike = true)
    (apart : ∀ c ∈ q.tree.ancestors a, (q.tree.kind c).isMethodLike = false)
    (also : (q.tree.kind b).isMethodLike = true)
    (alone : ∀ c ∈ q.tree.ancestors b, (q.tree.kind c).isMethodLike = false)
    (first : a ∈ q.tree.ancestors n) (second : b ∈ q.tree.ancestors n) : a = b := by
  rcases Tree.comparable_of_ancestors (List.mem_cons_of_mem n first)
    (List.mem_cons_of_mem n second) with low | high
  · rcases List.mem_cons.mp low with same | around
    · exact same
    · rw [alone a around] at method
      cases method
  · rcases List.mem_cons.mp high with same | around
    · exact same.symm
    · rw [apart b around] at also
      cases also

section Places

variable (legible : q.tree.Legible)

include legible

/-- Where an inherited bean method is reported: at the named part of a clause. -/
theorem grandparent_of_clause {type clause : Nat}
    (extended : q.tree.childByField type "superclass" = some clause)
    (named : n ∈ q.tree.namedChildren clause) : q.tree.Grandparent type n :=
  ⟨clause, legible.attached.parent_of_mem (Tree.mem_node_of_mem_namedChildren named),
    legible.attached.parent_of_mem (Tree.mem_node_of_childByField extended)⟩

theorem Anchor.unique (first : Anchor q problem a n) (second : Anchor q problem b n) : a = b := by
  have attached := legible.attached
  have marked {m k : Nat} (left : n ∈ q.annotations m) (right : n ∈ q.annotations k) : m = k :=
    (Query.grandparent_of_mem_annotations attached left).unique
      (Query.grandparent_of_mem_annotations attached right)
  cases problem with
  | autowiredSingleConstructor | configurationClassConstructorInjection =>
    have ⟨left, m, member, used⟩ := first
    have ⟨right, k, among, also⟩ := second
    rw [marked used also] at member
    exact legible.eq_of_mem_members left right member among
  | failureAnalyzerNotInSpringFactories | missingFunctionalInterface
  | singleCharacterStringLiteralIndexOf =>
    exact Tree.childByField_unique attached first.2 second.2
  | missingParenthesesAroundLambdaParameter =>
    exact Tree.childByField_unique attached first.1 second.1
  | mainCodeComponent | incorrectAnnotationLink => exact first.1.symm.trans second.1
  | lambdaExpressionBodyIsSingleStatementBlock => exact second.1.unique attached first.1
  | unusedMethodParameter =>
    have ⟨_, _, list, found, member⟩ := first
    have ⟨_, _, other, also, among⟩ := second
    have above := attached.parent_of_mem (Tree.mem_node_of_mem_namedChildren member)
    have upper := attached.parent_of_mem (Tree.mem_node_of_mem_namedChildren among)
    rw [Option.some.inj (above.symm.trans upper)] at found
    exact Tree.childByField_unique attached found also
  | incompleteUseOfAssertThat =>
    have ⟨among, left⟩ := first
    have ⟨also, right⟩ := second
    exact (outermost_of_unfinished attached among left).unique
      (outermost_of_unfinished attached also right)
  | missingPackageInfo => exact first.elim
  | invocationOfUnproxiedBeanMethod | assertjExceptionAssertionSupportNotUsed =>
    exact Eq.trans (Eq.symm first) second
  | mismatchedBeanMethodProxying | beanMethodOnNonConfigurationClass => exact marked first second
  | nonConfigurationClassHasInheritedBeanMethods =>
    have ⟨_, _, extended, named⟩ := first
    have ⟨_, _, also, part⟩ := second
    exact (grandparent_of_clause legible extended named).unique
      (grandparent_of_clause legible also part)

/-- A statement that is alone in the block of a lambda expression stands in none that is reported:
the block around it would stand there as well. -/
theorem not_mem_ancestors_of_lone (plain : ¬Exempt q.tree m) (lone : Lone q.tree b n) :
    m ∉ q.tree.ancestors n := by
  intro above
  have ⟨_, _, body, _, block, alone⟩ := lone
  have member : n ∈ q.tree.namedChildren body :=
    (List.mem_filter.mp (alone ▸ List.mem_singleton_self n)).1
  have parent := legible.attached.parent_of_mem (Tree.mem_node_of_mem_namedChildren member)
  have ⟨bound, inside⟩ := Tree.lt_of_mem_node_children (Tree.mem_node_of_mem_namedChildren member)
  rw [Tree.ancestors_of_parent parent] at above
  have below := Tree.mem_descendants_of_mem_ancestors legible.attached legible.untouched (by omega)
    above
  exact plain (.inr (.inr ⟨body, below, block⟩))

theorem not_mem_ancestors_of_parameter (first : Anchor q .unusedMethodParameter a m)
    (second : Anchor q .unusedMethodParameter b n) : m ∉ q.tree.ancestors n := by
  intro above
  have attached := legible.attached
  have ⟨method, apart, list, found, member⟩ := first
  have ⟨also, alone, other, under, among⟩ := second
  have parent := attached.parent_of_mem (Tree.mem_node_of_mem_namedChildren member)
  have upper := attached.parent_of_mem (Tree.mem_node_of_mem_namedChildren among)
  have outer : q.tree.Grandparent a m :=
    ⟨list, parent, attached.parent_of_mem (Tree.mem_node_of_childByField found)⟩
  have inner : q.tree.Grandparent b n :=
    ⟨other, upper, attached.parent_of_mem (Tree.mem_node_of_childByField under)⟩
  have higher := Tree.ancestors_trans (List.mem_cons_of_mem n above) outer.mem_ancestors
  have same := eq_of_outermost method apart also alone higher inner.mem_ancestors
  rw [same, under] at found
  rw [← Option.some.inj found] at parent
  have equal := Tree.eq_of_siblings (List.mem_cons_of_mem n above) List.mem_cons_self parent upper
  have := Tree.lt_of_mem_ancestors above
  omega

/-- No unfinished assertion stands in another: both would be the first of one statement. -/
theorem not_mem_ancestors_of_unfinished (first : Anchor q .incompleteUseOfAssertThat a m)
    (second : Anchor q .incompleteUseOfAssertThat b n) : m ∉ q.tree.ancestors n := by
  intro above
  have ⟨among, left⟩ := first
  have ⟨also, right⟩ := second
  have outer := outermost_of_unfinished legible.attached among left
  have inner := outermost_of_unfinished legible.attached also right
  have around := Tree.mem_ancestors_trans (List.mem_cons_of_mem n above) outer.around
  have same : a = b := Tree.Outermost.unique ⟨around, outer.kind, outer.first⟩ inner
  rw [same, right] at left
  have early := Tree.lt_of_mem_ancestors above
  rw [Option.some.inj left] at early
  exact Nat.lt_irrefl m early

theorem start_lt_of_clause (second : Anchor q .nonConfigurationClassHasInheritedBeanMethods b n)
    (live : q.tree.Live n) (above : m ∈ q.tree.ancestors n) :
    (q.tree.span m).start < (q.tree.span n).start := by
  have ⟨kind, clause, extended, named⟩ := second
  have parent := legible.attached.parent_of_mem (Tree.mem_node_of_mem_namedChildren named)
  have opened : (q.tree.kind clause).isOpened = true := by
    rw [legible.formed.kind_of_childByField extended (by rw [kind]; rfl)]
    rfl
  have token := (List.mem_filter.mp named).2
  rw [Bool.not_eq_true'] at token
  have further := legible.start_lt_of_isOpened opened live
    (by rw [Tree.ancestors_of_parent parent]; exact List.mem_cons_self) token
  rw [Tree.ancestors_of_parent parent] at above
  have inside := Tree.lt_of_mem_descendants legible.attached.nonempty live
  have bound := Tree.parent_lt parent
  have within := legible.spaced.within_ancestor legible.attached (by omega) above
  omega

theorem Anchor.start_lt (first : Anchor q problem a m) (second : Anchor q problem b n)
    (single : problem.isOfCalls = false) (live : q.tree.Live n) (above : m ∈ q.tree.ancestors n) :
    (q.tree.span m).start < (q.tree.span n).start := by
  have inside : n < q.tree.size := Tree.lt_of_mem_descendants legible.attached.nonempty live
  have annotated {d e : Nat} (left : m ∈ q.annotations d) (right : n ∈ q.annotations e) :
      (q.tree.span m).start < (q.tree.span n).start :=
    legible.start_lt_of_isOpened (Query.isOpened_of_mem_annotations left).1 live above
      (Query.isOpened_of_mem_annotations right).2
  have word (kind : q.tree.kind m = .identifier) : (q.tree.span m).start < (q.tree.span n).start :=
    absurd above (legible.words.not_mem_ancestors legible.attached inside (kind ▸ rfl))
  cases problem with
  | autowiredSingleConstructor | configurationClassConstructorInjection =>
    have ⟨_, _, _, used⟩ := first
    have ⟨_, _, _, also⟩ := second
    exact annotated used also
  | mismatchedBeanMethodProxying | beanMethodOnNonConfigurationClass => exact annotated first second
  | failureAnalyzerNotInSpringFactories | missingFunctionalInterface
  | singleCharacterStringLiteralIndexOf => exact word (legible.formed.kind_name first.1 first.2)
  | missingParenthesesAroundLambdaParameter => exact word first.2
  | mainCodeComponent =>
    have ⟨here, inspected, _⟩ := first
    have ⟨there, _, apart⟩ := second
    rw [← there] at apart
    rw [← here, apart m above] at inspected
    cases inspected
  | lambdaExpressionBodyIsSingleStatementBlock =>
    exact absurd above (not_mem_ancestors_of_lone legible first.2 second.1)
  | unusedMethodParameter => exact absurd above (not_mem_ancestors_of_parameter legible first second)
  | incompleteUseOfAssertThat =>
    exact absurd above (not_mem_ancestors_of_unfinished legible first second)
  | missingPackageInfo => exact first.elim
  | incorrectAnnotationLink =>
    have ⟨here, left⟩ := first
    have ⟨there, right⟩ := second
    exact absurd above (legible.links m n (here ▸ left) (there ▸ right))
  | invocationOfUnproxiedBeanMethod | assertjExceptionAssertionSupportNotUsed => cases single
  | nonConfigurationClassHasInheritedBeanMethods => exact start_lt_of_clause legible second live above

end Places

end Check

end SpringLint
