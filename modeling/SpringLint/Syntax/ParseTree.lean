import SpringLint.Syntax.Tree

/-! Parse trees as a grammar gives them, and the numbering of their nodes. -/

namespace SpringLint

/-- What a grammar makes of a text: a node with its kind, whether the grammar names it (a token has
no name), its place, the field under which it hangs, and its children. -/
inductive ParseTree where
  | node (kind : String) (named : Bool) (span : Span) (field : Option String)
      (children : List ParseTree)

namespace ParseTree

mutual

def size : ParseTree → Nat
  | .node _ _ _ _ children => sizeAll children + 1

def sizeAll : List ParseTree → Nat
  | [] => 0
  | tree :: rest => tree.size + sizeAll rest

end

/-- The numbers of the roots of a list of trees whose nodes are numbered from `next`. -/
def numbers (next : Nat) : List ParseTree → List Nat
  | [] => []
  | tree :: rest => next :: numbers (next + tree.size) rest

mutual

/-- The nodes of a tree, each before its children, when its root has the number `id`. -/
def nodes (parent : Option Nat) (id : Nat) : ParseTree → List Node
  | .node kind named span field children =>
    { kind := Kind.ofGrammar kind named
      span := span
      field := field
      parent := parent
      children := numbers (id + 1) children } :: nodesAll id (id + 1) children

def nodesAll (parent next : Nat) : List ParseTree → List Node
  | [] => []
  | tree :: rest => tree.nodes (some parent) next ++ nodesAll parent (next + tree.size) rest

end

mutual

theorem length_nodes (parent : Option Nat) (id : Nat) :
    (tree : ParseTree) → (tree.nodes parent id).length = tree.size
  | .node _ _ _ _ children => by
    simp [nodes, size, length_nodesAll id (id + 1) children]

theorem length_nodesAll (parent next : Nat) :
    (trees : List ParseTree) → (nodesAll parent next trees).length = sizeAll trees
  | [] => rfl
  | tree :: rest => by
    simp [nodesAll, sizeAll, length_nodes (some parent) next tree,
      length_nodesAll parent (next + tree.size) rest]

end

theorem size_pos (tree : ParseTree) : 0 < tree.size := by
  cases tree
  simp [size]

theorem lt_of_mem_numbers {next c : Nat} {trees : List ParseTree}
    (member : c ∈ numbers next trees) : next ≤ c ∧ c < next + sizeAll trees := by
  induction trees generalizing next with
  | nil => simp [numbers] at member
  | cons tree rest ih =>
    have positive := tree.size_pos
    rcases List.mem_cons.mp member with rfl | later
    · simp [sizeAll]
      omega
    · have bounds := ih later
      simp only [sizeAll]
      omega

mutual

theorem linked_nodes (parent : Option Nat) (id : Nat) (before : ∀ p, parent = some p → p < id) :
    (tree : ParseTree) → ∀ i n, (tree.nodes parent id)[i]? = some n →
      (∀ c ∈ n.children, id + i < c ∧ c < id + tree.size) ∧ ∀ p, n.parent = some p → p < id + i
  | .node _ _ _ _ children => by
    intro i n found
    cases i with
    | zero =>
      simp only [nodes, List.getElem?_cons_zero, Option.some.injEq] at found
      subst found
      refine ⟨fun c member => ?_, before⟩
      have bounds := lt_of_mem_numbers member
      simp only [size]
      omega
    | succ i =>
      simp only [nodes, List.getElem?_cons_succ] at found
      have inner := linked_nodesAll id (id + 1) (by omega) children i n found
      refine ⟨fun c member => ?_, fun p above => ?_⟩
      · have := inner.1 c member
        simp only [size]
        omega
      · have := inner.2 p above
        omega

theorem linked_nodesAll (parent next : Nat) (before : parent < next) :
    (trees : List ParseTree) → ∀ i n, (nodesAll parent next trees)[i]? = some n →
      (∀ c ∈ n.children, next + i < c ∧ c < next + sizeAll trees) ∧
        ∀ p, n.parent = some p → p < next + i
  | [] => by simp [nodesAll]
  | tree :: rest => by
    intro i n found
    simp only [nodesAll, List.getElem?_append, length_nodes] at found
    split at found
    · have inner := linked_nodes (some parent) next (by simpa using before) tree i n found
      refine ⟨fun c member => ?_, inner.2⟩
      have := inner.1 c member
      simp only [sizeAll]
      omega
    · have inner :=
        linked_nodesAll parent (next + tree.size) (by omega) rest (i - tree.size) n found
      refine ⟨fun c member => ?_, fun p above => ?_⟩
      · have := inner.1 c member
        simp only [sizeAll]
        omega
      · have := inner.2 p above
        omega

end

def toTree (tree : ParseTree) (source : String) : Tree where
  source := source
  nodes := (tree.nodes none 0).toArray
  linked := by
    intro i n found
    have inner := linked_nodes none 0 (by simp) tree i n (by simpa using found)
    simpa [length_nodes] using inner

structure Row where
  kind : String
  named : Bool
  span : Span
  field : Option String
  children : Nat

/-- Reads `wanted` trees off a listing; at most `fuel` rows are used on a path. -/
def readRows (fuel wanted : Nat) (rows : List Row) : Option (List ParseTree × List Row) :=
  match fuel, wanted, rows with
  | _, 0, rows => some ([], rows)
  | fuel + 1, wanted + 1, row :: rows => do
    let (children, rows) ← readRows fuel row.children rows
    let (rest, rows) ← readRows fuel wanted rows
    return (.node row.kind row.named row.span row.field children :: rest, rows)
  | _, _, _ => none

def ofRows? (rows : List Row) : Option ParseTree := do
  match ← readRows rows.length 1 rows with
  | ([tree], []) => some tree
  | _ => none

end ParseTree

structure Parse where
  tree : ParseTree
  hasErrors : Bool

abbrev Grammar := String → Option Parse

end SpringLint
