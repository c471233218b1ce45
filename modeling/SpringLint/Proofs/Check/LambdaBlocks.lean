import SpringLint.Proofs.Check.Findings
import SpringLint.Proofs.Syntax.Batch

/-! Which statements are reported as the only ones of a lambda expression's block, and which of them
need the braces all the same. Apart from a `switch`, a `throw` and what holds a block, the check asks
nothing of the statement. -/

namespace SpringLint.Check

/-- A statement that is, apart from comments, all that stands in the block of a lambda expression. -/
structure Lone (t : Tree) (lambda statement : Nat) : Prop where
  live : t.Live lambda
  kind : t.kind lambda = .lambdaExpression
  block : ∃ body, t.childByField lambda "body" = some body ∧ t.kind body = .block ∧
    (t.namedChildren body).filter (fun c => !(t.kind c).isComment) = [statement]

/-- A statement that stands without braces: its expression alone can be the body of a lambda
expression. -/
def Standalone (t : Tree) (statement : Nat) : Prop :=
  t.kind statement = .expressionStatement ∨
    t.kind statement = .other "return_statement" ∧
      ∃ value ∈ t.namedChildren statement, (t.kind value).isComment = false

instance (t : Tree) (statement : Nat) : Decidable (Standalone t statement) :=
  inferInstanceAs (Decidable (_ ∨ _ ∧ _))

/-- A statement that the check lets pass. -/
def Exempt (t : Tree) (statement : Nat) : Prop :=
  t.kind statement = .switchExpression ∨ t.kind statement = .throwStatement ∨
    ∃ x ∈ t.descendants statement, t.kind x = .block

instance (t : Tree) (statement : Nat) : Decidable (Exempt t statement) :=
  inferInstanceAs (Decidable (_ ∨ _ ∨ _))

def reportedBlocks (q : Query) : List Nat :=
  (lambdaBlocks q).map (·.node)

variable {t : Tree} {q : Query} {lambda statement : Nat}

theorem not_exempt_iff : ¬ Exempt t statement ↔
    (t.kind statement ≠ .switchExpression && t.kind statement ≠ .throwStatement) = true ∧
      (!containsBlock t statement) = true := by
  simp [Exempt, containsBlock, and_assoc]

theorem loneStatement?_eq_some_iff : loneStatement? t lambda = some statement ↔
    (∃ body, t.childByField lambda "body" = some body ∧ t.kind body = .block ∧
      (t.namedChildren body).filter (fun c => !(t.kind c).isComment) = [statement]) ∧
      ¬ Exempt t statement := by
  rw [not_exempt_iff]
  constructor
  · intro taken
    have ⟨body, found, rest⟩ := Option.bind_eq_some_iff.mp taken
    have ⟨block, rest⟩ := guard_bind_eq_some_iff.mp rest
    split at rest
    · rename_i only alone
      have ⟨kind, rest⟩ := guard_bind_eq_some_iff.mp rest
      have ⟨free, rest⟩ := guard_bind_eq_some_iff.mp rest
      cases rest
      exact ⟨⟨body, found, block, alone⟩, kind, free⟩
    · cases rest
  · intro ⟨⟨body, found, block, alone⟩, kind, free⟩
    apply Option.bind_eq_some_iff.mpr
    refine ⟨body, found, guard_bind_eq_some_iff.mpr ⟨block, ?_⟩⟩
    rw [alone]
    exact guard_bind_eq_some_iff.mpr ⟨kind, guard_bind_eq_some_iff.mpr ⟨free, rfl⟩⟩

theorem reportedBlocks_eq : reportedBlocks q =
    ((q.tree.descendants Tree.root).filter fun id => q.tree.kind id = .lambdaExpression).filterMap
      (loneStatement? q.tree) := by
  have statements (found : Option Nat) : (found.map fun statement =>
      Finding.warning .lambdaExpressionBodyIsSingleStatementBlock statement []).map (·.node) =
      found := by
    cases found <;> rfl
  rw [reportedBlocks, lambdaBlocks, Tree.gatherAll_eq, flatMap_ite_toList, List.map_filterMap]
  simp only [statements]

theorem lone_of_taken (member : lambda ∈ (t.descendants Tree.root).filter fun id =>
    t.kind id = .lambdaExpression) (taken : loneStatement? t lambda = some statement) :
    Lone t lambda statement := by
  have ⟨live, kind⟩ := List.mem_filter.mp member
  exact ⟨live, of_decide_eq_true kind, (loneStatement?_eq_some_iff.mp taken).1⟩

theorem mem_reportedBlocks_iff :
    statement ∈ reportedBlocks q ↔
      (∃ lambda, Lone q.tree lambda statement) ∧ ¬ Exempt q.tree statement := by
  rw [reportedBlocks_eq, List.mem_filterMap]
  constructor
  · intro ⟨lambda, member, taken⟩
    exact ⟨⟨lambda, lone_of_taken member taken⟩, (loneStatement?_eq_some_iff.mp taken).2⟩
  · intro ⟨⟨lambda, lone⟩, shown⟩
    refine ⟨lambda, List.mem_filter.mpr ⟨lone.live, decide_eq_true lone.kind⟩, ?_⟩
    exact loneStatement?_eq_some_iff.mpr ⟨lone.block, shown⟩

namespace Lone

variable (lone : Lone t lambda statement) (attached : t.Attached)

include lone attached

theorem parent : ∃ body, (t.node statement).parent = some body ∧
    (t.node body).parent = some lambda := by
  have ⟨body, found, _, alone⟩ := lone.block
  have member : statement ∈ t.namedChildren body :=
    (List.mem_filter.mp (alone ▸ List.mem_singleton_self statement)).1
  exact ⟨body, attached.parent_of_mem (Tree.mem_node_of_mem_namedChildren member),
    attached.parent_of_mem (Tree.mem_node_of_childByField found)⟩

theorem unique {other : Nat} (also : Lone t other statement) : other = lambda := by
  have ⟨body, above, higher⟩ := lone.parent attached
  have ⟨block, same, top⟩ := also.parent attached
  rw [above] at same
  cases same
  rw [higher] at top
  exact (Option.some.inj top).symm

end Lone

theorem nodup_reportedBlocks (attached : q.tree.Attached) : (reportedBlocks q).Nodup := by
  rw [reportedBlocks_eq]
  have distinct := (Tree.nodup_descendants attached Tree.root).filter fun id =>
    q.tree.kind id = .lambdaExpression
  apply List.pairwise_filterMap.mpr
  apply distinct.imp_of_mem
  intro a b first second different s taken u also same
  have left := lone_of_taken first taken
  have right := lone_of_taken second also
  exact different (right.unique attached (same ▸ left))

/-- Every lone statement that is not exempt is reported, once, whatever it is. So all that is
reported stands without braces exactly if every lone statement that does not is exempt. -/
theorem reports_standalone_iff {text : String} {parse : Parse}
    (read : q.tree = (Source.ofParse text parse).tree) :
    (reportedBlocks q).Nodup ∧
      (∀ statement, statement ∈ reportedBlocks q ↔
        (∃ lambda, Lone q.tree lambda statement) ∧ ¬ Exempt q.tree statement) ∧
      ((∀ statement ∈ reportedBlocks q, Standalone q.tree statement) ↔
        ∀ lambda statement, Lone q.tree lambda statement →
          Standalone q.tree statement ∨ Exempt q.tree statement) := by
  have attached : q.tree.Attached := read ▸ Source.attached_ofParse text parse
  refine ⟨nodup_reportedBlocks attached, fun statement => mem_reportedBlocks_iff, ?_⟩
  constructor
  · intro safe lambda statement lone
    by_cases exempt : Exempt q.tree statement
    · exact .inr exempt
    · exact .inl (safe statement (mem_reportedBlocks_iff.mpr ⟨⟨lambda, lone⟩, exempt⟩))
  · intro all statement reported
    have ⟨⟨lambda, lone⟩, shown⟩ := mem_reportedBlocks_iff.mp reported
    exact (all lambda statement lone).resolve_right shown

def conditionText : String :=
  "class A \x7b Runnable r = () -> \x7b if (true) run(); \x7d; \x7d\n"

def conditionParse : Parse where
  tree := .node "program" true ⟨0, 53⟩ none [
    .node "class_declaration" true ⟨0, 52⟩ none [
      .token "class" 0,
      .leaf (some "name") "identifier" 6 7,
      .node "class_body" true ⟨8, 52⟩ (some "body") [
        .token "\x7b" 8,
        .node "field_declaration" true ⟨10, 50⟩ none [
          .leaf (some "type") "type_identifier" 10 18,
          .node "variable_declarator" true ⟨19, 49⟩ (some "declarator") [
            .leaf (some "name") "identifier" 19 20,
            .token "=" 21,
            .node "lambda_expression" true ⟨23, 49⟩ (some "value") [
              .node "formal_parameters" true ⟨23, 25⟩ (some "parameters")
                [.token "(" 23, .token ")" 24],
              .token "->" 26,
              .node "block" true ⟨29, 49⟩ (some "body") [
                .token "\x7b" 29,
                .node "if_statement" true ⟨31, 47⟩ none [
                  .token "if" 31,
                  .node "parenthesized_expression" true ⟨34, 40⟩ (some "condition")
                    [.token "(" 34, .leaf none "true" 35 39, .token ")" 39],
                  .node "expression_statement" true ⟨41, 47⟩ (some "consequence") [
                    .node "method_invocation" true ⟨41, 46⟩ none [
                      .leaf (some "name") "identifier" 41 44,
                      .node "argument_list" true ⟨44, 46⟩ (some "arguments")
                        [.token "(" 44, .token ")" 45]],
                    .token ";" 46]],
                .token "\x7d" 48]]],
          .token ";" 49],
        .token "\x7d" 51]]]
  hasErrors := false

def conditionQuery : Query where
  unit := .ofSource "A.java" (Source.ofParse conditionText conditionParse)
  project := { layout := { root := "/" } }
  files := {}

/-- The `if` is reported, though it is no expression. -/
theorem reports_standalone_iff_condition :
    (Lone conditionQuery.tree 11 18 ∧ ¬ Exempt conditionQuery.tree 18 ∧
      ¬ Standalone conditionQuery.tree 18) ∧
      18 ∈ reportedBlocks conditionQuery ∧
      ¬ ∀ statement ∈ reportedBlocks conditionQuery, Standalone conditionQuery.tree statement := by
  have ⟨live, kind, block, shown, braced⟩ :
      11 ∈ conditionQuery.tree.descendants Tree.root ∧
      conditionQuery.tree.kind 11 = .lambdaExpression ∧
      (conditionQuery.tree.childByField 11 "body" = some 16 ∧
        conditionQuery.tree.kind 16 = .block ∧ (conditionQuery.tree.namedChildren 16).filter
          (fun c => !(conditionQuery.tree.kind c).isComment) = [18]) ∧
      ¬ Exempt conditionQuery.tree 18 ∧ ¬ Standalone conditionQuery.tree 18 := by
    decide +kernel
  have lone : Lone conditionQuery.tree 11 18 := ⟨live, kind, 16, block⟩
  have ⟨_, reported, standalone⟩ :=
    @reports_standalone_iff conditionQuery conditionText conditionParse rfl
  refine ⟨⟨lone, shown, braced⟩, (reported 18).mpr ⟨⟨11, lone⟩, shown⟩, fun safe => ?_⟩
  exact (standalone.mp safe 11 18 lone).elim braced shown

end SpringLint.Check
