import SpringLint.Proofs.Check.Findings
import SpringLint.Proofs.Syntax.Batch

/-! Which bare `assertThat` calls are reported. The walk stops at the outermost expression statements
and looks at the first `assertThat` of each, so of those that stand in statements inside, such as in
the body of a lambda expression, at most one is seen. -/

namespace SpringLint

theorem filterMap_eq_of_alone {α β : Type} {items : List α} {f : α → Option β} {x : α}
    (distinct : items.Nodup) (member : x ∈ items) (alone : ∀ y ∈ items, f y ≠ none → y = x) :
    items.filterMap f = (f x).toList := by
  induction items with
  | nil => cases member
  | cons item rest ih =>
    have ⟨fresh, later⟩ := List.nodup_cons.mp distinct
    have ⟨here, others⟩ := List.forall_mem_cons.mp alone
    by_cases same : item = x
    · have nothing : rest.filterMap f = [] := by
        apply List.filterMap_eq_nil_iff.mpr
        intro y among
        by_contra something
        exact fresh (same ▸ others y among something ▸ among)
      rw [List.filterMap_cons, nothing, same]
      cases f x <;> rfl
    · have nothing : f item = none := by
        by_contra something
        exact same (here something)
      have further : x ∈ rest := (List.mem_cons.mp member).resolve_left fun first => same first.symm
      rw [List.filterMap_cons_none nothing]
      exact ih later further others

namespace Tree

variable {t : Tree} {α : Type}

/-- Whether a walk from a node gets to another one below it, if it goes in at some nodes only. -/
def reaches (t : Tree) (goesIn : Nat → Bool) (id x : Nat) : Bool :=
  (t.ancestors x).all fun a => a < id || goesIn a

def reached (t : Tree) (goesIn : Nat → Bool) (id : Nat) : List Nat :=
  (t.descendants id).filter (t.reaches goesIn id)

theorem reaches_iff {goesIn : Nat → Bool} {id x : Nat} :
    t.reaches goesIn id x = true ↔ ∀ a ∈ t.ancestors x, a < id ∨ goesIn a = true := by
  simp only [reaches, List.all_eq_true, Bool.or_eq_true, decide_eq_true_eq]

theorem reaches_below (attached : t.Attached) {goesIn : Nat → Bool} {id c x : Nat}
    (child : c ∈ t.children id) (below : x ∈ t.descendants c) :
    t.reaches goesIn id x = (goesIn id && t.reaches goesIn c x) := by
  have parent := attached.parent_of_mem (mem_node_of_mem_children child)
  have path := ancestor_of_mem_descendants attached below
  have up : t.ancestors c = id :: t.ancestors id := ancestors_of_parent parent
  have outer : id ∈ t.ancestors x := ancestors_trans path (up ▸ List.mem_cons_self)
  have later : id < c := parent_lt parent
  apply Bool.eq_iff_iff.mpr
  rw [Bool.and_eq_true, reaches_iff, reaches_iff]
  constructor
  · intro through
    have here := (through id outer).resolve_left (Nat.lt_irrefl id)
    exact ⟨here, fun a above => (through a above).imp_left fun early => by omega⟩
  · intro ⟨here, inner⟩ a above
    rcases inner a above with early | enters
    · -- between the node and its child nothing stands
      rcases comparable_of_ancestors (List.mem_cons_of_mem x above) path with high | low
      · rw [up] at high
        rcases List.mem_cons.mp high with same | high
        · omega
        · rcases List.mem_cons.mp high with same | higher
          · exact .inr (same ▸ here)
          · exact .inl (lt_of_mem_ancestors higher)
      · have := le_of_mem_ancestors low
        omega
    · exact .inr enters

theorem reached_eq (attached : t.Attached) (goesIn : Nat → Bool) (id : Nat) :
    t.reached goesIn id =
      id :: if goesIn id then (t.children id).flatMap (t.reached goesIn) else [] := by
  have self : t.reaches goesIn id id = true :=
    reaches_iff.mpr fun a above => .inl (lt_of_mem_ancestors above)
  have below : ∀ c ∈ t.children id, (t.descendants c).filter (t.reaches goesIn id) =
      if goesIn id then t.reached goesIn c else [] := by
    intro c child
    have same : ∀ x ∈ t.descendants c,
        t.reaches goesIn id x = (goesIn id && t.reaches goesIn c x) :=
      fun x below => reaches_below attached child below
    rw [List.filter_congr same, reached]
    cases goesIn id <;> simp
  rw [reached, descendants_eq, List.filter_cons, if_pos self, List.filter_flatMap,
    List.flatMap_congr below]
  cases goesIn id <;> simp

theorem gather_eq (attached : t.Attached) (look : Nat → Bool × List α) :
    t.gather look = ((t.descendants root).filter fun x =>
      (t.ancestors x).all fun a => (look a).1).flatMap fun x => (look x).2 := by
  have all (x : Nat) : t.reaches (fun a => (look a).1) root x =
      (t.ancestors x).all fun a => (look a).1 := by
    simp [reaches, root]
  have walked := traverse_gather look (reached_eq attached fun a => (look a).1) root []
  rw [reached, funext all] at walked
  rw [gather, walk_eq]
  exact walked

/-- An expression statement around a node, or the node itself, that no other one is around. -/
structure Outermost (t : Tree) (outer id : Nat) : Prop where
  around : outer ∈ id :: t.ancestors id
  kind : t.kind outer = .expressionStatement
  first : ∀ a ∈ t.ancestors outer, t.kind a ≠ .expressionStatement

theorem exists_outermost {s : Nat} (statement : t.kind s = .expressionStatement) :
    ∃ outer, t.Outermost outer s := by
  induction s using Nat.strongRecOn with
  | ind s ih =>
    by_cases alone : ∀ a ∈ t.ancestors s, t.kind a ≠ .expressionStatement
    · exact ⟨s, List.mem_cons_self, statement, alone⟩
    · push Not at alone
      have ⟨a, above, also⟩ := alone
      have ⟨outer, around, kind, first⟩ := ih a (lt_of_mem_ancestors above) also
      exact ⟨outer, mem_ancestors_trans (List.mem_cons_of_mem s above) around, kind, first⟩

theorem Outermost.unique {s o u : Nat} (left : t.Outermost o s) (right : t.Outermost u s) : o = u := by
  rcases comparable_of_ancestors left.around right.around with low | high
  · rcases List.mem_cons.mp low with same | above
    · exact same
    · exact absurd left.kind (right.first o above)
  · rcases List.mem_cons.mp high with same | above
    · exact same.symm
    · exact absurd right.kind (left.first u above)

/-- The expression statements that no other one is around, in order. -/
def outerStatements (t : Tree) : List Nat :=
  (t.descendants root).filter fun x => t.kind x = .expressionStatement ∧
    ∀ a ∈ t.ancestors x, t.kind a ≠ .expressionStatement

theorem mem_outerStatements {s : Nat} :
    s ∈ t.outerStatements ↔ t.Live s ∧ t.Outermost s s := by
  rw [outerStatements, List.mem_filter, decide_eq_true_eq]
  exact and_congr .rfl ⟨fun ⟨kind, first⟩ => ⟨List.mem_cons_self, kind, first⟩,
    fun outer => ⟨outer.kind, outer.first⟩⟩

end Tree

namespace Check

variable (q : Query)

def firstAssertion? (statement : Nat) : Option Nat := do
  let expression ← (q.tree.namedChildren statement).head?
  (q.tree.descendants expression).find? (isAssertThat q)

def unfinished? (statement : Nat) : Option Nat :=
  (firstAssertion? q statement).filter fun call => !isReceiver q.tree call

def lookAt (id : Nat) : Bool × List Finding :=
  if q.tree.kind id = .expressionStatement then
    (false, ((unfinished? q id).map (.error .incompleteUseOfAssertThat)).toList)
  else (true, [])

theorem incompleteAssertions_eq_gather : incompleteAssertions q = q.tree.gather (lookAt q) := by
  have found (id : Nat) : (do
      let expression ← (q.tree.namedChildren id).head?
      let call ← (q.tree.descendants expression).find? (isAssertThat q)
      guard (!isReceiver q.tree call)
      return Finding.error .incompleteUseOfAssertThat call) =
        (unfinished? q id).map (.error .incompleteUseOfAssertThat) := by
    unfold unfinished? firstAssertion?
    cases (q.tree.namedChildren id).head? with
    | none => rfl
    | some expression =>
      dsimp only [Option.bind_eq_bind, Option.bind_some]
      cases (q.tree.descendants expression).find? (isAssertThat q) with
      | none => rfl
      | some call =>
        rw [Option.bind_some, Option.filter_some]
        by_cases last : (!isReceiver q.tree call) = true
        · rw [guard, if_pos last, if_pos last]
          rfl
        · rw [guard, if_neg last, if_neg last]
          rfl
  unfold incompleteAssertions
  congr 1
  funext id
  rw [lookAt, ← found]

/-- For each outermost expression statement the check looks at the first `assertThat`. -/
theorem incompleteAssertions_eq (attached : q.tree.Attached) :
    incompleteAssertions q =
      (q.tree.outerStatements.filterMap (unfinished? q)).map
        (.error .incompleteUseOfAssertThat) := by
  have enters (a : Nat) : (lookAt q a).1 = decide (q.tree.kind a ≠ .expressionStatement) := by
    unfold lookAt
    split <;> simp [*]
  have finds (x : Nat) : (lookAt q x).2 = if q.tree.kind x = .expressionStatement then
      ((unfinished? q x).map (.error .incompleteUseOfAssertThat)).toList else [] := by
    unfold lookAt
    split <;> rfl
  rw [incompleteAssertions_eq_gather, Tree.gather_eq attached, List.map_filterMap,
    Tree.outerStatements]
  simp only [finds, flatMap_ite_toList, List.filter_filter]
  congr 2
  funext x
  apply Bool.eq_iff_iff.mpr
  simp [enters]

variable {q}

theorem inside_of_unfinished {statement call : Nat} (attached : q.tree.Attached)
    (reported : unfinished? q statement = some call) : statement ∈ q.tree.ancestors call := by
  have ⟨first, _⟩ := Option.filter_eq_some_iff.mp reported
  have ⟨expression, named, found⟩ := Option.bind_eq_some_iff.mp first
  have child := Tree.mem_node_of_mem_namedChildren (List.mem_of_head? named)
  have path := Tree.ancestor_of_mem_descendants attached (List.mem_of_find?_eq_some found)
  apply Tree.ancestors_trans path
  rw [Tree.ancestors_of_parent (attached.parent_of_mem child)]
  exact List.mem_cons_self

/-- A statement that is no more than an `assertThat`. -/
structure Bare (q : Query) (statement call : Nat) : Prop where
  kind : q.tree.kind statement = .expressionStatement
  expression : (q.tree.namedChildren statement).head? = some call
  assertion : isAssertThat q call = true

namespace Bare

variable {statement call : Nat} (bare : Bare q statement call) (attached : q.tree.Attached)

include bare

theorem first : firstAssertion? q statement = some call := by
  rw [firstAssertion?, bare.expression, Option.bind_eq_bind, Option.bind_some,
    Tree.descendants_eq, List.find?_cons_of_pos bare.assertion]

include attached

theorem parent : (q.tree.node call).parent = some statement :=
  attached.parent_of_mem (Tree.mem_node_of_mem_namedChildren (List.mem_of_head? bare.expression))

theorem not_receiver : isReceiver q.tree call = false := by
  have above : q.tree.parent call = some statement := bare.parent attached
  simp [isReceiver, above, bare.kind]

theorem outermost {s : Nat} (among : s ∈ q.tree.outerStatements)
    (reported : unfinished? q s = some call) : q.tree.Outermost s statement := by
  have ⟨_, outer⟩ := Tree.mem_outerStatements.mp among
  have around := inside_of_unfinished attached reported
  rw [Tree.ancestors_of_parent (bare.parent attached)] at around
  exact ⟨around, outer.kind, outer.first⟩

end Bare

/-- A bare `assertThat` is reported at most once, and it is reported exactly if it is the first
`assertThat` of the outermost expression statement around it. In particular it is reported if no
other expression statement is around its own. -/
theorem reports_bare_assertion {text : String} {parse : Parse}
    (read : q.tree = (Source.ofParse text parse).tree) {statement call : Nat}
    (inside : statement < q.tree.size) (bare : Bare q statement call) :
    ∃ outer, q.tree.Outermost outer statement ∧
      ((incompleteAssertions q).filter fun finding => finding.node = call) =
        (if firstAssertion? q outer = some call then [.error .incompleteUseOfAssertThat call]
        else []) ∧
      (outer = statement → firstAssertion? q outer = some call) := by
  have attached : q.tree.Attached := read ▸ Source.attached_ofParse text parse
  have untouched : q.tree.Untouched := read ▸ Source.untouched_ofParse text parse
  have ⟨outer, outermost⟩ := Tree.exists_outermost bare.kind
  have within : outer < q.tree.size := by
    have := Tree.le_of_mem_ancestors outermost.around
    omega
  have among : outer ∈ q.tree.outerStatements :=
    Tree.mem_outerStatements.mpr ⟨Tree.mem_descendants_root attached untouched within,
      List.mem_cons_self, outermost.kind, outermost.first⟩
  have distinct : q.tree.outerStatements.Nodup :=
    (Tree.nodup_descendants attached Tree.root).filter _
  have here : (unfinished? q outer).filter (· = call) =
      if firstAssertion? q outer = some call then some call else none := by
    cases first : firstAssertion? q outer with
    | none => simp [unfinished?, first]
    | some other =>
      by_cases same : other = call
      · simp [unfinished?, first, same, bare.not_receiver attached]
      · simp [unfinished?, first, same, Option.filter_eq_none_iff]
  have alone : ∀ s ∈ q.tree.outerStatements,
      (unfinished? q s).filter (· = call) ≠ none → s = outer := by
    intro s member something
    have ⟨found, here⟩ := Option.ne_none_iff_exists'.mp something
    have ⟨reported, same⟩ := Option.filter_eq_some_iff.mp here
    rw [of_decide_eq_true same] at reported
    exact (bare.outermost attached member reported).unique outermost
  refine ⟨outer, outermost, ?_, fun same => same ▸ bare.first⟩
  have filtered : (fun finding : Finding => decide (finding.node = call)) ∘
      Finding.error .incompleteUseOfAssertThat = fun other => decide (other = call) := rfl
  rw [incompleteAssertions_eq q attached, List.filter_map, filtered, List.filter_filterMap,
    filterMap_eq_of_alone distinct among alone, here]
  split <;> rfl

def innerText : String :=
  "import static org.assertj.core.api.Assertions.assertThat;\n" ++
    "class A \x7b void m() \x7b run(() -> \x7b assertThat(1); assertThat(2); \x7d); \x7d \x7d\n"

def digitStatement (start : Nat) : ParseTree :=
  .node "expression_statement" true ⟨start, start + 14⟩ none [
    .node "method_invocation" true ⟨start, start + 13⟩ none [
      .leaf (some "name") "identifier" start (start + 10),
      .node "argument_list" true ⟨start + 10, start + 13⟩ (some "arguments") [
        .token "(" (start + 10),
        .leaf none "decimal_integer_literal" (start + 11) (start + 12),
        .token ")" (start + 12)]],
    .token ";" (start + 13)]

def innerParse : Parse where
  tree := .node "program" true ⟨0, 129⟩ none [
    .node "import_declaration" true ⟨0, 57⟩ none [
      .token "import" 0,
      .token "static" 7,
      .node "scoped_identifier" true ⟨14, 56⟩ none [
        .node "scoped_identifier" true ⟨14, 45⟩ (some "scope") [
          .node "scoped_identifier" true ⟨14, 34⟩ (some "scope") [
            .node "scoped_identifier" true ⟨14, 30⟩ (some "scope") [
              .node "scoped_identifier" true ⟨14, 25⟩ (some "scope") [
                .leaf (some "scope") "identifier" 14 17,
                .token "." 17,
                .leaf (some "name") "identifier" 18 25],
              .token "." 25,
              .leaf (some "name") "identifier" 26 30],
            .token "." 30,
            .leaf (some "name") "identifier" 31 34],
          .token "." 34,
          .leaf (some "name") "identifier" 35 45],
        .token "." 45,
        .leaf (some "name") "identifier" 46 56],
      .token ";" 56],
    .node "class_declaration" true ⟨58, 128⟩ none [
      .token "class" 58,
      .leaf (some "name") "identifier" 64 65,
      .node "class_body" true ⟨66, 128⟩ (some "body") [
        .token "\x7b" 66,
        .node "method_declaration" true ⟨68, 126⟩ none [
          .leaf (some "type") "void_type" 68 72,
          .leaf (some "name") "identifier" 73 74,
          .node "formal_parameters" true ⟨74, 76⟩ (some "parameters")
            [.token "(" 74, .token ")" 75],
          .node "block" true ⟨77, 126⟩ (some "body") [
            .token "\x7b" 77,
            .node "expression_statement" true ⟨79, 124⟩ none [
              .node "method_invocation" true ⟨79, 123⟩ none [
                .leaf (some "name") "identifier" 79 82,
                .node "argument_list" true ⟨82, 123⟩ (some "arguments") [
                  .token "(" 82,
                  .node "lambda_expression" true ⟨83, 122⟩ none [
                    .node "formal_parameters" true ⟨83, 85⟩ (some "parameters")
                      [.token "(" 83, .token ")" 84],
                    .token "->" 86,
                    .node "block" true ⟨89, 122⟩ (some "body") [
                      .token "\x7b" 89, digitStatement 91, digitStatement 106,
                      .token "\x7d" 121]],
                  .token ")" 122]],
              .token ";" 123],
            .token "\x7d" 125]],
        .token "\x7d" 127]]]
  hasErrors := false

def innerQuery : Query :=
  let unit := SourceUnit.ofSource "A.java" (Source.ofParse innerText innerParse)
  { unit := unit.link (unit.declare {}) {}, project := { layout := { root := "/" } }, files := {} }

/-- The second of the two calls is missed. -/
theorem reports_bare_assertion_second :
    (54 < innerQuery.tree.size ∧ Bare innerQuery 54 55) ∧
      (incompleteAssertions innerQuery).filter (fun finding => finding.node = 55) = [] ∧
      incompleteAssertions innerQuery = [.error .incompleteUseOfAssertThat 47] := by
  have ⟨inside, kind, expression, around, top, first⟩ : 54 < innerQuery.tree.size ∧
      innerQuery.tree.kind 54 = .expressionStatement ∧
      (innerQuery.tree.namedChildren 54).head? = some 55 ∧
      34 ∈ 54 :: innerQuery.tree.ancestors 54 ∧
      innerQuery.tree.kind 34 = .expressionStatement ∧
      ∀ a ∈ innerQuery.tree.ancestors 34, innerQuery.tree.kind a ≠ .expressionStatement := by
    decide +kernel
  have ⟨assertion, other, all⟩ : isAssertThat innerQuery 55 = true ∧
      firstAssertion? innerQuery 34 = some 47 ∧
      incompleteAssertions innerQuery = [.error .incompleteUseOfAssertThat 47] := by
    decide +kernel
  have bare : Bare innerQuery 54 55 := ⟨kind, expression, assertion⟩
  have outer : innerQuery.tree.Outermost 34 54 := ⟨around, top, first⟩
  have ⟨_, outermost, reported, _⟩ := reports_bare_assertion rfl inside bare
  rw [outermost.unique outer, other, if_neg (by decide)] at reported
  exact ⟨⟨inside, bare⟩, reported, all⟩

end Check

end SpringLint
