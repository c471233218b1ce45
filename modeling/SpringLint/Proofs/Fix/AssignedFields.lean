import SpringLint.Proofs.Fix.InjectedText
import SpringLint.Proofs.Syntax.Traversal

/-! Which variables the new constructor assigns. It has one parameter and one assignment for each
rewritten declaration, so of a declaration with several variables it misses all but the first. -/

namespace SpringLint

section Firsts

variable {α β : Type} {items : List α} {parts : α → List β}

theorem filterMap_head?_sublist :
    (items.filterMap fun item => (parts item).head?).Sublist (items.flatMap parts) := by
  induction items with
  | nil => exact .refl _
  | cons item rest ih =>
    cases first : parts item with
    | nil => simpa [first] using ih
    | cons head tail =>
      simp only [List.filterMap_cons, List.flatMap_cons, first, List.head?_cons, List.cons_append]
      exact (ih.trans (List.sublist_append_right ..)).cons_cons head

theorem filterMap_head?_eq_iff (filled : ∀ item ∈ items, parts item ≠ []) :
    (items.filterMap fun item => (parts item).head?) = items.flatMap parts ↔
      ∀ item ∈ items, (parts item).length = 1 := by
  induction items with
  | nil => simp
  | cons item rest ih =>
    obtain ⟨here, later⟩ := List.forall_mem_cons.mp filled
    obtain ⟨head, tail, first⟩ := List.exists_cons_of_ne_nil here
    have shorter : (rest.filterMap fun item => (parts item).head?).length ≤
        (rest.flatMap parts).length := filterMap_head?_sublist.length_le
    rw [List.forall_mem_cons, ← ih later, List.filterMap_cons, List.flatMap_cons, first]
    simp only [List.head?_cons, List.cons_append, List.cons.injEq, true_and, List.length_cons,
      Nat.add_eq_right, List.length_eq_zero_iff]
    constructor
    · intro same
      have lengths := congrArg List.length same
      rw [List.length_append] at lengths
      have none : tail = [] := List.length_eq_zero_iff.mp (by omega)
      exact ⟨none, by simpa [none] using same⟩
    · rintro ⟨rfl, same⟩
      simpa using same

end Firsts

namespace Tree

variable {t : Tree}

def fieldNames (t : Tree) (declaration : Nat) : List Nat :=
  (t.childrenByField declaration "declarator").filterMap (t.childByField · "name")

theorem nodup_childrenByField (attached : t.Attached) (id : Nat) (field : String) :
    (t.childrenByField id field).Nodup :=
  ((attached.nodup_children id).filter _).filter _

theorem parent_of_mem_childrenByField (attached : t.Attached) {id c : Nat} {field : String}
    (member : c ∈ t.childrenByField id field) : (t.node c).parent = some id :=
  attached.parent_of_mem (mem_node_of_mem_children (List.mem_filter.mp member).1)

theorem parent_of_childByField (attached : t.Attached) {id c : Nat} {field : String}
    (found : t.childByField id field = some c) : (t.node c).parent = some id :=
  attached.parent_of_mem (mem_node_of_childByField found)

theorem nodup_fieldNames (attached : t.Attached) (declaration : Nat) :
    (t.fieldNames declaration).Nodup := by
  refine (nodup_childrenByField attached declaration _).filterMap fun first second name left right => ?_
  have above := parent_of_childByField attached left
  rw [parent_of_childByField attached right] at above
  exact (Option.some.inj above).symm

theorem eq_of_mem_fieldNames (attached : t.Attached) {first second name : Nat}
    (left : name ∈ t.fieldNames first) (right : name ∈ t.fieldNames second) : first = second := by
  have up {declaration : Nat} (member : name ∈ t.fieldNames declaration) :
      ((t.node name).parent.bind fun p => (t.node p).parent) = some declaration := by
    obtain ⟨declarator, among, found⟩ := List.mem_filterMap.mp member
    rw [parent_of_childByField attached found, Option.bind_some,
      parent_of_mem_childrenByField attached among]
  have same := up left
  rw [up right] at same
  exact (Option.some.inj same).symm

theorem nodup_members (attached : t.Attached) (type : Nat) : (t.members type).Nodup := by
  unfold members
  cases found : t.childByField type "body" with
  | none => exact .nil
  | some body =>
    have distinct (id : Nat) : (t.namedChildren id).Nodup :=
      ((attached.nodup_children id).filter _).filter _
    have above {id c : Nat} (member : c ∈ t.namedChildren id) : (t.node c).parent = some id :=
      attached.parent_of_mem (mem_node_of_mem_namedChildren member)
    rw [List.nodup_flatMap]
    constructor
    · intro c _
      split
      · exact distinct c
      · exact List.nodup_singleton c
    · refine (distinct body).imp_of_mem fun {a b} first second different x left right => ?_
      -- what hangs below the body directly does not hang below one of its children
      have held {c : Nat} (among : c ∈ t.namedChildren body)
          (member : x ∈ if t.kind c = .enumBodyDeclarations then t.namedChildren c else [c]) :
          x = c ∧ (t.node x).parent = some body ∨ (t.node x).parent = some c ∧ c ≠ body := by
        split at member
        · have later := (lt_of_mem_node_children (mem_node_of_mem_namedChildren among)).1
          exact .inr ⟨above member, by omega⟩
        · obtain rfl := List.mem_singleton.mp member
          exact .inl ⟨rfl, above among⟩
      rcases held first left with ⟨rfl, up⟩ | ⟨up, deep⟩
      · rcases held second right with ⟨rfl, -⟩ | ⟨other, low⟩
        · exact different rfl
        · rw [up] at other
          exact low (Option.some.inj other).symm
      · rcases held second right with ⟨rfl, other⟩ | ⟨other, -⟩
        · rw [up] at other
          exact deep (Option.some.inj other)
        · rw [up] at other
          exact different (Option.some.inj other)

end Tree

namespace ConstructorInjection

namespace Scope

variable (q : Query) (s : Scope)

/-- The variables of the declarations that are made final. -/
def declared : List Nat :=
  (s.fields q).flatMap fun f => q.tree.fieldNames f.declaration

/-- The first variable of each of them. -/
def assigned : List Nat :=
  (s.fields q).filterMap fun f => (q.tree.fieldNames f.declaration).head?

end Scope

variable {q : Query} {s : Scope}

theorem fieldNames_eq_cons {f : InjectedField} {d : Nat} (found : injectedField? q d = some f) :
    ∃ first rest, q.tree.fieldNames d = first :: rest ∧ f.name = q.tree.text first := by
  unfold injectedField? at found
  simp only [Option.bind_eq_bind, Option.bind_eq_some_iff] at found
  obtain ⟨use, -, declarator, first, name, named, type, -, made⟩ := found
  obtain rfl := Option.some.inj made
  obtain ⟨others, all⟩ := List.head?_eq_some_iff.mp first
  refine ⟨name, others.filterMap (q.tree.childByField · "name"), ?_, rfl⟩
  rw [Tree.fieldNames, all, List.filterMap_cons, named]

theorem name_fields : (s.fields q).map (·.name) = (s.assigned q).map q.tree.text := by
  unfold Scope.assigned
  rw [List.map_filterMap, ← List.filterMap_eq_map]
  apply List.filterMap_congr
  intro f member
  obtain ⟨first, rest, all, name⟩ := fieldNames_eq_cons (field_of_mem_fields member).2.1
  simp [all, name]

theorem nodup_declared (attached : q.tree.Attached) : (s.declared q).Nodup := by
  have distinct : (s.declarations q).Nodup := (Tree.nodup_members attached s.type).filter _
  have apart : (s.fields q).Pairwise fun f g => f.declaration ≠ g.declaration := by
    refine List.pairwise_filterMap.mpr (distinct.imp_of_mem ?_)
    intro d e first second different f found g other
    rw [(field_of_injectedField? (kind_declaration first) found).1,
      (field_of_injectedField? (kind_declaration second) other).1]
    exact different
  rw [Scope.declared, List.nodup_flatMap]
  refine ⟨fun f _ => Tree.nodup_fieldNames attached f.declaration, apart.imp ?_⟩
  intro f g different name left right
  exact different (Tree.eq_of_mem_fieldNames attached left right)

/-- A plan writes a constructor with one parameter and one assignment for the first variable of each
declaration that it makes final. These are all variables of those declarations, none of them twice,
exactly if every one of the declarations has a single variable. -/
theorem assigned_eq_declared_iff {text : String} {parse : Parse}
    (read : q.tree = (Source.ofParse text parse).tree) {marked : Nat} {edits : List Edit}
    (planned : plan? q marked = some edits) :
    ∃ s, scope? q marked = some s ∧ edits = s.edits q ∧
      (s.fields q).map (·.name) = (s.assigned q).map q.tree.text ∧
        (s.assigned q).Sublist (s.declared q) ∧ (s.declared q).Nodup ∧
          (s.assigned q = s.declared q ↔
            ∀ f ∈ s.fields q, (q.tree.fieldNames f.declaration).length = 1) := by
  have attached := Source.attached_ofParse text parse
  rw [← read] at attached
  obtain ⟨s, scope, same⟩ := plan?_eq_some planned
  refine ⟨s, scope, same, name_fields, filterMap_head?_sublist, nodup_declared attached, ?_⟩
  apply filterMap_head?_eq_iff
  intro f member
  obtain ⟨first, rest, all, -⟩ := fieldNames_eq_cons (field_of_mem_fields member).2.1
  simp [all]

def pairText : String :=
  "import org.springframework.beans.factory.annotation.Autowired;\n" ++
    "class A \x7b @Autowired private B b, c; \x7d\n"

def pairParse : Parse where
  tree := .node "program" true ⟨0, 102⟩ none [
    .node "import_declaration" true ⟨0, 62⟩ none
      [.token "import" 0, qualified 7 none 61 [51, 40, 32, 26, 10], .token ";" 61],
    .node "class_declaration" true ⟨63, 101⟩ none [
      .token "class" 63,
      .leaf (some "name") "identifier" 69 70,
      .node "class_body" true ⟨71, 101⟩ (some "body") [
        .token "\x7b" 71,
        .node "field_declaration" true ⟨73, 99⟩ none [
          .node "modifiers" true ⟨73, 91⟩ none [
            .node "marker_annotation" true ⟨73, 83⟩ none
              [.token "@" 73, .leaf (some "name") "identifier" 74 83],
            .token "private" 84],
          .leaf (some "type") "type_identifier" 92 93,
          .node "variable_declarator" true ⟨94, 95⟩ (some "declarator")
            [.leaf (some "name") "identifier" 94 95],
          .token "," 95,
          .node "variable_declarator" true ⟨97, 98⟩ (some "declarator")
            [.leaf (some "name") "identifier" 97 98],
          .token ";" 98],
        .token "\x7d" 100]]]
  hasErrors := false

def pairQuery : Query :=
  let unit := SourceUnit.ofSource "A.java" (Source.ofParse pairText pairParse)
  { unit := unit.link (unit.declare {}) {}, project := { layout := { root := "/" } }, files := {} }

def pairPlan : List Edit :=
  [.remove 27, .append 26 (.keyword "final"), .insertAfter 25
    (.text "\n\n    public A(B b) \x7b\n        this.b = b;\n    \x7d")]

/-- Both variables become final, and the constructor leaves the second without a value. -/
theorem assigned_eq_declared_iff_pair :
    plan? pairQuery 20 = some pairPlan ∧
      (pairQuery.tree.fieldNames 25).map pairQuery.tree.text = ["b", "c"] ∧
        ∃ s, scope? pairQuery 20 = some s ∧ pairPlan = s.edits pairQuery ∧
          (s.fields pairQuery).map (·.name) = (s.assigned pairQuery).map pairQuery.tree.text ∧
            (s.assigned pairQuery).Sublist (s.declared pairQuery) ∧ (s.declared pairQuery).Nodup ∧
              (s.assigned pairQuery = s.declared pairQuery ↔
                ∀ f ∈ s.fields pairQuery, (pairQuery.tree.fieldNames f.declaration).length = 1) := by
  have planned : plan? pairQuery 20 = some pairPlan := by decide +kernel
  have read : pairQuery.tree = (Source.ofParse pairText pairParse).tree := rfl
  exact ⟨planned, by decide +kernel, assigned_eq_declared_iff read planned⟩

end ConstructorInjection

end SpringLint
