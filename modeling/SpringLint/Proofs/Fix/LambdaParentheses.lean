import SpringLint.Fix.Resolution
import SpringLint.Proofs.Check.Findings
import SpringLint.Proofs.Syntax.Hosts
import SpringLint.Proofs.Syntax.Words

/-! Markers of bare lambda parameters and their fix. From each marker the fix finds back to the one
lambda expression that is marked; on the tree with those parentheses the check reports the other
markers, as they were and in their order. -/

namespace SpringLint

/-- The node at which a fix of a marker starts. -/
def Marker.site? (m : Marker) (t : Tree) : Option Nat := do
  let start ← m.start
  let stop ← m.stop
  t.coveringNode start stop

namespace Tree

variable {t u v : Tree} {edits done : List Edit}

/-- The tree after edits that put parentheses around parameters. Apart from marks of change, nothing
else is different. -/
structure Wrapped (t : Tree) (edits : List Edit) (u : Tree) : Prop where
  source : u.source = t.source
  node : ∀ id, u.node id =
    { t.node id with
      dirty := (u.node id).dirty
      parenthesized := (t.node id).parenthesized || edits.contains (.parenthesize id) }

theorem Wrapped.refl (t : Tree) : t.Wrapped [] t :=
  ⟨rfl, fun id => by simp⟩

theorem Wrapped.concat (wrapped : t.Wrapped done v) (marked : v.Marked) {id : Nat}
    (inside : id < v.size) :
    t.Wrapped (done ++ [.parenthesize id]) ((v.wrap id).markDirty id) := by
  have size : (v.wrap id).size = v.size := size_modify ..
  have same := (markDirty_spec _ id (by omega) (marked.wrap inside).up).1
  refine ⟨same.source.trans wrapped.source, fun other => ?_⟩
  rw [same.node other, node_wrap v inside, wrapped.node other, List.contains_append]
  simp only [Bool.or_assoc, List.contains_cons, List.contains_nil, Bool.or_false]
  congr 2
  rw [Bool.eq_iff_iff]
  simp

theorem exists_wrapped (attached : t.Attached) (untouched : t.Untouched)
    (lambdas : ∀ edit ∈ edits, ∃ id, edit = .parenthesize id ∧ t.kind id = .lambdaExpression) :
    ∃ u, t.apply edits = (u, .ok ()) ∧ t.Wrapped edits u := by
  have valid : t.validateAll [] edits = .ok () := by
    induction edits with
    | nil => rfl
    | cons edit rest ih =>
      have ⟨⟨id, here, lambda⟩, later⟩ := List.forall_mem_cons.mp lambdas
      have inside : id < t.size := lt_size_of_kind (by simp [lambda])
      rw [validateAll_cons_eq_ok_iff, here]
      refine ⟨validate_eq_ok_iff.mpr ⟨inside, ⟨fun a _ => ?_, ?_⟩, ?_, ?_⟩, ih later⟩
      · exact ⟨(untouched a).1, List.not_mem_nil⟩
      · exact untouched.isInserted id
      · intro needed
        cases needed
      · intro other same
        rw [← Edit.parenthesize.inj same]
        exact lambda
  have carried : t.apply edits = t.performAll edits := by
    unfold apply
    rw [valid]
  rcases apply_cases attached untouched.marked edits with
    ⟨reason, invalid, -⟩ | ⟨u, -, accepted, -⟩
  · rw [valid] at invalid
    cases invalid
  · have run := performAll_induction
      (P := fun v done => (∀ edit ∈ done, ∃ id, edit = .parenthesize id) → t.Wrapped done v)
      (by
        intro v w done edit _ marked admits _ performed before all
        have ⟨id, same⟩ := all edit (by simp)
        have earlier := before fun other member => all other (by simp [member])
        subst same
        rw [← Except.ok.inj performed]
        exact earlier.concat marked admits.targets.1)
      attached untouched.marked (admits_of_validateAll valid) (fun _ => .refl t)
    rw [← carried, accepted] at run
    refine ⟨u, accepted, run fun edit member => ?_⟩
    have ⟨id, same, _⟩ := lambdas edit member
    exact ⟨id, same⟩

namespace Wrapped

variable (wrapped : t.Wrapped edits u)

include wrapped

theorem kind : u.kind = t.kind := by
  funext id
  unfold Tree.kind
  rw [wrapped.node id]

theorem span : u.span = t.span := by
  funext id
  unfold Tree.span
  rw [wrapped.node id]

theorem parent : u.parent = t.parent := by
  funext id
  unfold Tree.parent
  rw [wrapped.node id]

theorem children : u.children = t.children := by
  funext id
  unfold Tree.children
  rw [wrapped.node id]
  apply List.filter_congr
  intro c _
  rw [wrapped.node c]

theorem namedChildren : u.namedChildren = t.namedChildren := by
  funext id
  unfold Tree.namedChildren
  rw [wrapped.children, wrapped.kind]

theorem childByField : u.childByField = t.childByField := by
  funext id field
  unfold Tree.childByField childrenByField
  rw [wrapped.children]
  refine congrArg List.head? (List.filter_congr fun c _ => ?_)
  rw [wrapped.node c]

theorem descendants : u.descendants = t.descendants := by
  funext id
  induction id using down_induction (t := t) with
  | step id ih =>
    rw [descendants_eq, descendants_eq, wrapped.children]
    have below : (t.children id).flatMap u.descendants = (t.children id).flatMap t.descendants :=
      List.flatMap_congr fun c child => ih c (mem_node_of_mem_children child)
    rw [below]

theorem coverFrom (target : Span) (id : Nat) : u.coverFrom target id = t.coverFrom target id := by
  fun_induction Tree.coverFrom t target id with
  | case1 id c found ih =>
    rw [Tree.coverFrom]
    split
    · rename_i other there
      rw [wrapped.namedChildren, wrapped.span, found] at there
      rw [← Option.some.inj there]
      exact ih
    · rename_i none
      rw [wrapped.namedChildren, wrapped.span, found] at none
      cases none
  | case2 id none =>
    rw [Tree.coverFrom]
    split
    · rename_i other there
      rw [wrapped.namedChildren, wrapped.span, none] at there
      cases there
    · rfl

theorem site? (m : Marker) : m.site? u = m.site? t := by
  have same : u.coveringNode = t.coveringNode := by
    funext start stop
    unfold coveringNode
    simp only [wrapped.span, wrapped.coverFrom]
  unfold Marker.site?
  rw [same]

theorem ofFinding (resource : String) : Marker.ofFinding resource u = Marker.ofFinding resource t := by
  funext finding
  unfold Marker.ofFinding lineNumber
  rw [wrapped.span, wrapped.source]

theorem bareParameter? (id : Nat) :
    Check.bareParameter? u id =
      if edits.contains (.parenthesize id) then none else Check.bareParameter? t id := by
  unfold Check.bareParameter?
  rw [wrapped.childByField, wrapped.kind, wrapped.node id]
  cases edits.contains (.parenthesize id) <;> simp

end Wrapped

end Tree

namespace LambdaParentheses

open SpringLint.Tree (root)
open Check (bareParameter?)

/-- The lambda expressions of a tree with a bare parameter, each with the parameter, in order. -/
def bareLambdas (t : Tree) : List (Nat × Nat) :=
  (t.descendants root).filterMap fun id =>
    if t.kind id = .lambdaExpression then (bareParameter? t id).map (id, ·) else none

def markerAt (q : Query) (parameter : Nat) : Marker :=
  .ofFinding q.unit.resource q.tree (.warning .missingParenthesesAroundLambdaParameter parameter [])

def markers (q : Query) : List Marker :=
  (Check.lambdaParameters q).map (.ofFinding q.unit.resource q.tree)

theorem mem_bareLambdas {t : Tree} {lambda parameter : Nat} :
    (lambda, parameter) ∈ bareLambdas t ↔
      t.Live lambda ∧ t.kind lambda = .lambdaExpression ∧ bareParameter? t lambda = some parameter := by
  unfold bareLambdas
  rw [List.mem_filterMap]
  constructor
  · intro found
    have ⟨id, live, here⟩ := found
    have ⟨kind, bare⟩ := Option.ite_none_right_eq_some.mp here
    have ⟨p, first, same⟩ := Option.map_eq_some_iff.mp bare
    cases same
    exact ⟨live, kind, first⟩
  · intro found
    have ⟨live, kind, bare⟩ := found
    exact ⟨lambda, live, by rw [if_pos kind, bare]; rfl⟩

theorem lambdaParameters_eq (q : Query) :
    Check.lambdaParameters q = (bareLambdas q.tree).map fun x =>
      .warning .missingParenthesesAroundLambdaParameter x.2 [] := by
  unfold Check.lambdaParameters bareLambdas
  rw [Tree.gatherAll_eq, List.map_filterMap, List.filterMap_eq_flatMap_toList]
  apply List.flatMap_congr
  intro id _
  split
  · cases bareParameter? q.tree id <;> rfl
  · rfl

theorem markers_eq (q : Query) :
    markers q = (bareLambdas q.tree).map fun x => markerAt q x.2 := by
  rw [markers, lambdaParameters_eq, List.map_map]
  rfl

theorem bareLambdas_wrapped {t u : Tree} {edits : List Edit} (wrapped : t.Wrapped edits u) :
    bareLambdas u = (bareLambdas t).filter fun x => !edits.contains (.parenthesize x.1) := by
  unfold bareLambdas
  rw [wrapped.descendants, wrapped.kind, List.filter_filterMap]
  apply List.filterMap_congr
  intro id _
  rw [wrapped.bareParameter?]
  split
  · cases bareParameter? t id with
    | none => cases edits.contains (.parenthesize id) <;> rfl
    | some p =>
      rw [Option.map_some, Option.filter_some]
      cases edits.contains (.parenthesize id) <;> rfl
  · rfl

section Sites

variable {q : Query} {lambda parameter : Nat}

theorem parameter_of_mem (attached : q.tree.Attached)
    (member : (lambda, parameter) ∈ bareLambdas q.tree) :
    q.tree.kind parameter = .identifier ∧ q.tree.parent parameter = some lambda ∧
      q.tree.Live parameter := by
  have ⟨live, _, bare⟩ := mem_bareLambdas.mp member
  unfold bareParameter? at bare
  have ⟨_, found⟩ := Option.ite_none_left_eq_some.mp bare
  have ⟨field, kind⟩ := Option.filter_eq_some_iff.mp found
  have above := attached.parent_of_mem (Tree.mem_node_of_childByField field)
  exact ⟨of_decide_eq_true kind, above, live.field field⟩

theorem site?_markerAt (attached : q.tree.Attached) (spaced : q.tree.Spaced)
    (words : q.tree.LeafWords) (member : (lambda, parameter) ∈ bareLambdas q.tree)
    (proper : (q.tree.span parameter).start < (q.tree.span parameter).stop) :
    (markerAt q parameter).site? q.tree = some parameter := by
  have ⟨kind, _, live⟩ := parameter_of_mem attached member
  have path := words.leadsTo attached live (by rw [kind]; rfl)
  have leaf := words parameter (by rw [kind]; rfl)
  exact spaced.coveringNode_of_leaf path leaf proper

theorem plan?_parameter (kind : q.tree.kind parameter = .identifier)
    (above : q.tree.parent parameter = some lambda)
    (outer : q.tree.kind lambda = .lambdaExpression) :
    plan? q parameter = (bareParameter? q.tree lambda).map fun _ => [.parenthesize lambda] := by
  unfold plan?
  rw [if_neg (by rw [kind]; exact Kind.noConfusion), above]
  simp only [Option.filter_some, outer, decide_true, if_true, Option.bind_eq_bind, Option.bind_some]
  cases bareParameter? q.tree lambda <;> rfl

end Sites

/-- A marker stands for the bare parameter of a lambda expression of the source. -/
def Flags (q : Query) (lambda : Nat) (m : Marker) : Prop :=
  ∃ parameter, (lambda, parameter) ∈ bareLambdas q.tree ∧ m = markerAt q parameter

section Resolve

variable {q : Query} (attached : q.tree.Attached) (spaced : q.tree.Spaced)
  (words : q.tree.LeafWords)
  (proper : ∀ x ∈ bareLambdas q.tree, (q.tree.span x.2).start < (q.tree.span x.2).stop)

include attached spaced words proper

theorem eq_of_markerAt_eq {x y : Nat × Nat} (first : x ∈ bareLambdas q.tree)
    (second : y ∈ bareLambdas q.tree) (same : markerAt q x.2 = markerAt q y.2) : x = y := by
  have left := site?_markerAt attached spaced words first (proper x first)
  have right := site?_markerAt attached spaced words second (proper y second)
  rw [same, right] at left
  have parameter : x.2 = y.2 := (Option.some.inj left).symm
  have ⟨_, above, _⟩ := parameter_of_mem attached first
  have ⟨_, other, _⟩ := parameter_of_mem attached second
  rw [parameter, other] at above
  exact Prod.ext (Option.some.inj above).symm parameter

theorem plan_of_mem {lambda parameter : Nat} (member : (lambda, parameter) ∈ bareLambdas q.tree) :
    (markerAt q parameter).site? q.tree = some parameter ∧
      plan? q parameter = some [.parenthesize lambda] ∧
        ∀ other, Flags q other (markerAt q parameter) ↔ other = lambda := by
  have ⟨kind, above, _⟩ := parameter_of_mem attached member
  have ⟨_, outer, bare⟩ := mem_bareLambdas.mp member
  refine ⟨site?_markerAt attached spaced words member (proper _ member), ?_, fun other => ?_⟩
  · rw [plan?_parameter kind above outer, bare]
    rfl
  · constructor
    · intro flags
      have ⟨p, found, same⟩ := flags
      have pair := eq_of_markerAt_eq attached spaced words proper member found same
      exact (congrArg Prod.fst pair).symm
    · intro same
      exact ⟨parameter, same ▸ member, rfl⟩

end Resolve

def edits (q : Query) (chosen : List Marker) : List Edit :=
  chosen.flatMap fun m => ((m.site? q.tree).bind (plan? q)).getD []

section Chosen

variable {q : Query} (attached : q.tree.Attached) (spaced : q.tree.Spaced)
  (words : q.tree.LeafWords)
  (proper : ∀ x ∈ bareLambdas q.tree, (q.tree.span x.2).start < (q.tree.span x.2).stop)
  {chosen : List Marker} (among : ∀ m ∈ chosen, m ∈ markers q)

include attached spaced words proper among

theorem mem_edits {edit : Edit} :
    edit ∈ edits q chosen ↔
      ∃ x ∈ bareLambdas q.tree, markerAt q x.2 ∈ chosen ∧ edit = .parenthesize x.1 := by
  have planned {x : Nat × Nat} (member : x ∈ bareLambdas q.tree) :
      (((markerAt q x.2).site? q.tree).bind (plan? q)).getD [] = [.parenthesize x.1] := by
    have ⟨site, plan, _⟩ := plan_of_mem attached spaced words proper member
    rw [site, Option.bind_some, plan, Option.getD_some]
  unfold edits
  rw [List.mem_flatMap]
  constructor
  · intro found
    have ⟨m, taken, member⟩ := found
    have ⟨x, bare, same⟩ := List.mem_map.mp (markers_eq q ▸ among m taken)
    rw [← same, planned bare] at member
    exact ⟨x, bare, same ▸ taken, List.mem_singleton.mp member⟩
  · intro found
    have ⟨x, bare, taken, same⟩ := found
    refine ⟨_, taken, ?_⟩
    rw [planned bare, same]
    exact List.mem_singleton_self _

theorem parenthesize_mem_edits {x : Nat × Nat} (member : x ∈ bareLambdas q.tree) :
    .parenthesize x.1 ∈ edits q chosen ↔ markerAt q x.2 ∈ chosen := by
  rw [mem_edits attached spaced words proper among]
  constructor
  · intro found
    have ⟨y, bare, taken, same⟩ := found
    have ⟨_, _, first⟩ := mem_bareLambdas.mp member
    have ⟨_, _, second⟩ := mem_bareLambdas.mp bare
    rw [Edit.parenthesize.inj same, second] at first
    rw [← Option.some.inj first]
    exact taken
  · intro taken
    exact ⟨x, member, taken, rfl⟩

/-- After the edits the check reports what has not been taken. -/
theorem markers_after {batch : List Edit} (same : batch.Perm (edits q chosen)) {after : Query}
    (wrapped : q.tree.Wrapped batch after.tree)
    (resource : after.unit.resource = q.unit.resource) :
    markers after = (markers q).filter (· ∉ chosen) := by
  have places : markerAt after = markerAt q := by
    funext parameter
    unfold markerAt
    rw [resource, wrapped.ofFinding]
  rw [markers_eq, markers_eq, bareLambdas_wrapped wrapped, places, List.filter_map]
  congr 1
  apply List.filter_congr
  intro x member
  have taken := parenthesize_mem_edits attached spaced words proper among member
  rw [← same.mem_iff] at taken
  simp only [List.contains_eq_mem, Function.comp_apply, taken, decide_not]

theorem plan_after {batch : List Edit} (same : batch.Perm (edits q chosen)) {after : Query}
    (wrapped : q.tree.Wrapped batch after.tree) {m : Marker} (taken : m ∈ chosen) :
    ∃ site, m.site? after.tree = some site ∧ plan? after site = none := by
  have ⟨x, bare, marked⟩ := List.mem_map.mp (markers_eq q ▸ among m taken)
  have ⟨kind, above, _⟩ := parameter_of_mem attached bare
  have ⟨_, outer, _⟩ := mem_bareLambdas.mp bare
  have ⟨site, _⟩ := plan_of_mem attached spaced words proper bare
  have done : batch.contains (.parenthesize x.1) = true := by
    rw [List.contains_iff_mem, same.mem_iff]
    exact (parenthesize_mem_edits attached spaced words proper among bare).mpr (marked ▸ taken)
  refine ⟨x.2, ?_, ?_⟩
  · rw [wrapped.site?, ← marked]
    exact site
  · rw [plan?_parameter (by rw [wrapped.kind]; exact kind) (by rw [wrapped.parent]; exact above)
      (by rw [wrapped.kind]; exact outer), wrapped.bareParameter?, if_pos done]
    rfl

end Chosen

/-- Take some of the markers that the check reports on a parsed source. From each of them the fix
finds the lambda expression that is flagged, and plans one edit for it. All these edits are accepted
as one batch in any order. After it the check reports the other markers, as before, and the fix
has nothing to do at the markers that were taken. -/
theorem resolves_chosen {q : Query} {text : String} {parse : Parse}
    (read : q.tree = (Source.ofParse text parse).tree) (nested : parse.tree.Nested)
    (leaves : parse.tree.LeafComments) (words : parse.tree.LeafWords)
    (proper : ∀ finding ∈ Check.lambdaParameters q,
      (q.tree.span finding.node).start < (q.tree.span finding.node).stop)
    {chosen : List Marker} (among : ∀ m ∈ chosen, m ∈ markers q) :
    (∀ m ∈ chosen, ∃ site lambda, m.site? q.tree = some site ∧
      plan? q site = some [.parenthesize lambda] ∧ ∀ other, Flags q other m ↔ other = lambda) ∧
    ∀ batch, batch.Perm (edits q chosen) → ∃ fixed, q.tree.apply batch = (fixed, .ok ()) ∧
      ∀ after : Query, after.tree = fixed → after.unit.resource = q.unit.resource →
        markers after = (markers q).filter (· ∉ chosen) ∧
          ∀ m ∈ chosen, ∃ site, m.site? after.tree = some site ∧ plan? after site = none := by
  have attached : q.tree.Attached := read ▸ Source.attached_ofParse text parse
  have untouched : q.tree.Untouched := read ▸ Source.untouched_ofParse text parse
  have spaced : q.tree.Spaced := read ▸ Source.spaced_ofParse text parse nested leaves
  have plain : q.tree.LeafWords := read ▸ Source.leafWords_ofParse text words
  have filled : ∀ x ∈ bareLambdas q.tree, (q.tree.span x.2).start < (q.tree.span x.2).stop := by
    rw [lambdaParameters_eq, List.forall_mem_map] at proper
    exact proper
  constructor
  · intro m taken
    have ⟨x, bare, marked⟩ := List.mem_map.mp (markers_eq q ▸ among m taken)
    subst marked
    have ⟨site, plan, only⟩ := plan_of_mem attached spaced plain filled bare
    exact ⟨x.2, x.1, site, plan, only⟩
  · intro batch same
    have lambdas : ∀ edit ∈ batch,
        ∃ id, edit = .parenthesize id ∧ q.tree.kind id = .lambdaExpression := by
      intro edit member
      have ⟨x, bare, _, form⟩ :=
        (mem_edits attached spaced plain filled among).mp (same.mem_iff.mp member)
      exact ⟨x.1, form, (mem_bareLambdas.mp bare).2.1⟩
    have ⟨fixed, accepted, wrapped⟩ := Tree.exists_wrapped attached untouched lambdas
    refine ⟨fixed, accepted, fun after tree resource => ?_⟩
    subst tree
    exact ⟨markers_after attached spaced plain filled among same wrapped resource, fun m taken =>
      plan_after attached spaced plain filled among same wrapped taken⟩

def nestText : String :=
  "class A \x7b F f = a -> b -> a; \x7d\n"

def nestParse : Parse where
  tree := .node "program" true ⟨0, 31⟩ none [
    .node "class_declaration" true ⟨0, 30⟩ none [
      .token "class" 0,
      .leaf (some "name") "identifier" 6 7,
      .node "class_body" true ⟨8, 30⟩ (some "body") [
        .token "\x7b" 8,
        .node "field_declaration" true ⟨10, 28⟩ none [
          .leaf (some "type") "type_identifier" 10 11,
          .node "variable_declarator" true ⟨12, 27⟩ (some "declarator") [
            .leaf (some "name") "identifier" 12 13,
            .token "=" 14,
            .node "lambda_expression" true ⟨16, 27⟩ (some "value") [
              .leaf (some "parameters") "identifier" 16 17,
              .token "->" 18,
              .node "lambda_expression" true ⟨21, 27⟩ (some "body") [
                .leaf (some "parameters") "identifier" 21 22,
                .token "->" 23,
                .leaf (some "body") "identifier" 26 27]]],
          .token ";" 27],
        .token "\x7d" 29]]]
  hasErrors := false

def nestQuery : Query where
  unit := .ofSource "A.java" (Source.ofParse nestText nestParse)
  project := { layout := { root := "/project" } }
  files := {}

/-- Of the two markers the inner one is taken; the outer one stays. -/
theorem resolves_chosen_inner :
    (nestParse.tree.Nested ∧ nestParse.tree.LeafComments ∧ nestParse.tree.LeafWords) ∧
      (∀ finding ∈ Check.lambdaParameters nestQuery,
        (nestQuery.tree.span finding.node).start < (nestQuery.tree.span finding.node).stop) ∧
      markers nestQuery = [markerAt nestQuery 12, markerAt nestQuery 15] ∧
      (∀ m ∈ [markerAt nestQuery 15], m ∈ markers nestQuery) ∧
      edits nestQuery [markerAt nestQuery 15] = [.parenthesize 14] ∧
      ∃ fixed, nestQuery.tree.apply [.parenthesize 14] = (fixed, .ok ()) ∧
        ∀ after : Query, after.tree = fixed → after.unit.resource = "A.java" →
          markers after = [markerAt nestQuery 12] ∧
            ∃ site, (markerAt nestQuery 15).site? after.tree = some site ∧
              plan? after site = none := by
  have shape : nestParse.tree.Nested ∧ nestParse.tree.LeafComments ∧ nestParse.tree.LeafWords := by
    decide
  have bare : bareLambdas nestQuery.tree = [(11, 12), (14, 15)] := by decide +kernel
  have reported : markers nestQuery = [markerAt nestQuery 12, markerAt nestQuery 15] := by
    rw [markers_eq, bare]
    rfl
  have proper : ∀ finding ∈ Check.lambdaParameters nestQuery,
      (nestQuery.tree.span finding.node).start < (nestQuery.tree.span finding.node).stop := by
    rw [lambdaParameters_eq, bare]
    decide +kernel
  have among : ∀ m ∈ [markerAt nestQuery 15], m ∈ markers nestQuery := by
    simp [reported]
  have planned : edits nestQuery [markerAt nestQuery 15] = [.parenthesize 14] := by decide +kernel
  have left : (markers nestQuery).filter (· ∉ [markerAt nestQuery 15]) =
      [markerAt nestQuery 12] := by
    rw [reported]
    decide +kernel
  have ⟨_, later⟩ := @resolves_chosen nestQuery nestText nestParse rfl shape.1 shape.2.1 shape.2.2
    proper [markerAt nestQuery 15] among
  have ⟨fixed, accepted, fine⟩ := later _ (.of_eq planned.symm)
  refine ⟨shape, proper, reported, among, planned, fixed, accepted, fun after tree resource => ?_⟩
  have ⟨rest, settled⟩ := fine after tree resource
  exact ⟨rest.trans left, settled _ (List.mem_singleton_self _)⟩

end LambdaParentheses

end SpringLint
