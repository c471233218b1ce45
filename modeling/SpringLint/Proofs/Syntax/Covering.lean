import Mathlib.Logic.Relation
import SpringLint.Proofs.Syntax.Batch
import SpringLint.Proofs.Syntax.Traversal

/-! The node that covers a range. The search goes down to the first named child that covers the range.
Siblings stand apart, so that no other child covers it, and the search ends at the lowest node of
all that do. -/

namespace SpringLint

namespace Span

theorem contains_iff {outer inner : Span} :
    outer.contains inner = true ↔ outer.start ≤ inner.start ∧ inner.stop ≤ outer.stop := by
  simp only [contains, Bool.and_eq_true, decide_eq_true_eq]

theorem contains_self (span : Span) : span.contains span = true :=
  contains_iff.mpr ⟨Nat.le_refl _, Nat.le_refl _⟩

theorem eq_of_contains {a b : Span} (first : a.contains b = true) (second : b.contains a = true) :
    a = b := by
  rw [contains_iff] at first second
  have start : a.start = b.start := Nat.le_antisymm first.1 second.1
  have stop : a.stop = b.stop := Nat.le_antisymm second.2 first.2
  exact congrArg₂ Span.mk start stop

end Span

namespace Tree

variable {t : Tree} {target : Span} {id n : Nat}

/-- Named nodes lead down from one node to another, each a child of the one before. -/
def LeadsTo (t : Tree) : Nat → Nat → Prop :=
  Relation.ReflTransGen fun parent child => child ∈ t.namedChildren parent

theorem LeadsTo.mem_descendants (path : t.LeadsTo id n) : n ∈ t.descendants id := by
  induction path with
  | refl => exact t.mem_descendants_self id
  | tail _ child ih =>
    have live := (List.mem_filter.mp child).1
    exact mem_descendants_trans ih (mem_descendants_of_child live (t.mem_descendants_self _))

theorem Spaced.contains_of_leadsTo (spaced : t.Spaced) (path : t.LeadsTo id n)
    (covers : (t.span n).contains target = true) : (t.span id).contains target = true := by
  induction path with
  | refl => exact covers
  | tail _ child ih =>
    apply ih
    have inside := (spaced _).contains (List.mem_map_of_mem (mem_node_of_mem_namedChildren child))
    rw [Span.contains_iff] at covers ⊢
    omega

theorem Spaced.contains_span (spaced : t.Spaced) (path : t.LeadsTo id n) :
    (t.span id).contains (t.span n) = true :=
  spaced.contains_of_leadsTo path (Span.contains_self _)

theorem Spaced.eq_of_contains (spaced : t.Spaced) (proper : target.start < target.stop) {a b : Nat}
    (first : a ∈ t.namedChildren id) (second : b ∈ t.namedChildren id)
    (left : (t.span a).contains target = true) (right : (t.span b).contains target = true) :
    a = b := by
  have holds : ∀ c, (t.span c).contains target = true → t.Holds c target.start := fun c covers => by
    have := Span.contains_iff.mp covers
    exact ⟨this.1, Nat.lt_of_lt_of_le proper this.2⟩
  exact spaced.eq_of_holds (mem_node_of_mem_namedChildren first)
    (mem_node_of_mem_namedChildren second) (holds a left) (holds b right)

theorem leadsTo_coverFrom (t : Tree) (target : Span) (id : Nat) :
    t.LeadsTo id (t.coverFrom target id) := by
  fun_induction coverFrom t target id with
  | case1 id c found ih => exact .head (List.mem_of_find?_eq_some found) ih
  | case2 id none => exact .refl

theorem contains_coverFrom (covers : (t.span id).contains target = true) :
    (t.span (t.coverFrom target id)).contains target = true := by
  fun_induction coverFrom t target id with
  | case1 id c found ih => exact ih (List.find?_some (p := fun c => (t.span c).contains target) found)
  | case2 id none => exact covers

theorem Spaced.leadsTo_coverFrom_of_contains (spaced : t.Spaced)
    (proper : target.start < target.stop) (path : t.LeadsTo id n)
    (covers : (t.span n).contains target = true) : t.LeadsTo n (t.coverFrom target id) := by
  fun_induction coverFrom t target id with
  | case1 id c found ih =>
    have child := List.mem_of_find?_eq_some found
    have around : (t.span c).contains target = true :=
      List.find?_some (p := fun c => (t.span c).contains target) found
    rcases path.cases_head with rfl | ⟨d, other, further⟩
    · exact .head child (leadsTo_coverFrom t target c)
    · have above := spaced.contains_of_leadsTo further covers
      have same := spaced.eq_of_contains proper child other around above
      exact ih (same ▸ further)
  | case2 id none =>
    rcases path.cases_head with rfl | ⟨d, child, further⟩
    · exact .refl
    · have above := spaced.contains_of_leadsTo further covers
      exact absurd above (List.find?_eq_none.mp none d child)

theorem LeadsTo.mem_ancestors (attached : t.Attached) (path : t.LeadsTo id n) :
    id ∈ n :: t.ancestors n :=
  ancestor_of_mem_descendants attached path.mem_descendants

/-- The search fails only where the root does not cover the range. -/
theorem coveringNode_eq_none_iff {start stop : Nat} :
    t.coveringNode start stop = none ↔ (t.span root).contains ⟨start, stop⟩ = false := by
  unfold coveringNode
  cases top : (t.span root).contains ⟨start, stop⟩ <;> simp [top]

theorem coveringNode_eq_some_iff {start stop : Nat} :
    t.coveringNode start stop = some id ↔
      (t.span root).contains ⟨start, stop⟩ = true ∧ t.coverFrom ⟨start, stop⟩ root = id := by
  unfold coveringNode
  cases top : (t.span root).contains ⟨start, stop⟩ <;> simp [top]

end Tree

namespace Source

variable (text : String) (parse : Parse)

open SpringLint.Tree (root)

/-- In a parsed tree whose nodes nest, some node covers a range that is not empty exactly if the root
does. The one that is found is the lowest: all others that cover the range stand above it. For the
place of a node that is the node itself or one below it at the same place. -/
theorem coveringNode_lowest (spaced : (ofParse text parse).tree.Spaced) {start stop : Nat}
    (proper : start < stop) :
    let t := (ofParse text parse).tree
    (t.coveringNode start stop = none ↔ (t.span root).contains ⟨start, stop⟩ = false) ∧
    (∀ id, t.coveringNode start stop = some id →
      t.LeadsTo root id ∧ (t.span id).contains ⟨start, stop⟩ = true ∧
        ∀ n, t.LeadsTo root n → (t.span n).contains ⟨start, stop⟩ = true →
          n ∈ id :: t.ancestors id) ∧
    ∀ n, t.LeadsTo root n → t.span n = ⟨start, stop⟩ →
      ∃ id, t.coveringNode start stop = some id ∧ t.span id = t.span n ∧ id ∈ t.descendants n := by
  intro t
  have attached : t.Attached := attached_ofParse text parse
  refine ⟨Tree.coveringNode_eq_none_iff, fun id found => ?_, fun n path place => ?_⟩
  · have ⟨top, lowest⟩ := Tree.coveringNode_eq_some_iff.mp found
    rw [← lowest]
    refine ⟨t.leadsTo_coverFrom _ root, Tree.contains_coverFrom top, fun n path covers => ?_⟩
    exact (spaced.leadsTo_coverFrom_of_contains proper path covers).mem_ancestors attached
  · have covers : (t.span n).contains ⟨start, stop⟩ = true := place ▸ Span.contains_self _
    have top := spaced.contains_of_leadsTo path covers
    have below := spaced.leadsTo_coverFrom_of_contains proper path covers
    refine ⟨_, Tree.coveringNode_eq_some_iff.mpr ⟨top, rfl⟩, ?_, below.mem_descendants⟩
    have around : (t.span (t.coverFrom ⟨start, stop⟩ root)).contains (t.span n) = true := by
      rw [place]
      exact Tree.contains_coverFrom top
    exact Span.eq_of_contains around (spaced.contains_span below)

def linkingText : String :=
  "/** \x7b@link A\x7d */ class B \x7b\x7d"

def linkingParse : Parse where
  tree := .node "program" true ⟨0, 27⟩ none [
    .leaf none "block_comment" 0 16,
    .node "class_declaration" true ⟨17, 27⟩ none [
      .token "class" 17,
      .leaf (some "name") "identifier" 23 24,
      .node "class_body" true ⟨25, 27⟩ (some "body") [.token "\x7b" 25, .token "\x7d" 26]]]
  hasErrors := false

def linkingTree : Tree :=
  (ofParse linkingText linkingParse).tree

theorem coveringNode_lowest_link :
    linkingTree.Spaced ∧ 11 < 12 ∧ linkingTree.LeadsTo root 9 ∧
      linkingTree.coveringNode 11 12 = some 9 := by
  have nested : linkingParse.tree.Nested := by decide
  have leaves : linkingParse.tree.LeafComments := by decide
  have spaced : linkingTree.Spaced := spaced_ofParse linkingText linkingParse nested leaves
  have ⟨comment, link, reference, place, bottom⟩ :
      1 ∈ linkingTree.namedChildren root ∧ 8 ∈ linkingTree.namedChildren 1 ∧
        9 ∈ linkingTree.namedChildren 8 ∧ linkingTree.span 9 = ⟨11, 12⟩ ∧
        linkingTree.descendants 9 = [9] := by
    decide +kernel
  have path : linkingTree.LeadsTo root 9 := .tail (.tail (.single comment) link) reference
  have proper : 11 < 12 := by decide
  have ⟨_, _, found⟩ := coveringNode_lowest linkingText linkingParse spaced proper
  have ⟨id, covering, _, below⟩ := found 9 path place
  have same : id = 9 := List.mem_singleton.mp (bottom ▸ below)
  exact ⟨spaced, proper, path, same ▸ covering⟩

end Source

end SpringLint
