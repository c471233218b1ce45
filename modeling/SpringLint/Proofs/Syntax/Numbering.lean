import SpringLint.Proofs.Syntax.Shape
import SpringLint.Syntax.ParseTree

namespace SpringLint

/-- What a node is wherever it hangs: its kind, its place and its field. -/
def Node.face (n : Node) : Kind × Span × Option String :=
  (n.kind, n.span, n.field)

namespace ParseTree

def span : ParseTree → Span
  | .node _ _ span _ _ => span

def face : ParseTree → Kind × Span × Option String
  | .node kind named span field _ => (Kind.ofGrammar kind named, span, field)

/-- A token, whose kind is its text. -/
def token (text : String) (start : Nat) : ParseTree :=
  .node text false ⟨start, start + text.utf8ByteSize⟩ none []

/-- A node that the grammar names and that has no children. -/
def leaf (field : Option String) (kind : String) (start stop : Nat) : ParseTree :=
  .node kind true ⟨start, stop⟩ field []

mutual

/-- A condition on every node: its kind, whether it is named, its place, and its children. -/
def All (P : String → Bool → Span → List ParseTree → Prop) : ParseTree → Prop
  | .node kind named span _ children => P kind named span children ∧ AllIn P children

def AllIn (P : String → Bool → Span → List ParseTree → Prop) : List ParseTree → Prop
  | [] => True
  | tree :: rest => tree.All P ∧ AllIn P rest

end

section Decide

variable {P : String → Bool → Span → List ParseTree → Prop}
  [∀ kind named span children, Decidable (P kind named span children)]

mutual

def decidableAll : (tree : ParseTree) → Decidable (tree.All P)
  | .node kind named span field children =>
    have := decidableAllIn children
    decidable_of_iff (P kind named span children ∧ AllIn P children) (by rw [All])

def decidableAllIn : (trees : List ParseTree) → Decidable (AllIn P trees)
  | [] => isTrue (by rw [AllIn]; trivial)
  | tree :: rest =>
    have := decidableAll tree
    have := decidableAllIn rest
    decidable_of_iff (tree.All P ∧ AllIn P rest) (by rw [AllIn])

end

end Decide

/-- The children of every node stand in a row inside it. -/
def Nested (tree : ParseTree) : Prop :=
  tree.All fun _ _ span children => InRow span.start span.stop (children.map ParseTree.span)

instance (tree : ParseTree) : Decidable tree.Nested := decidableAll tree

/-- Block comments have no parts. -/
def LeafComments (tree : ParseTree) : Prop :=
  tree.All fun kind named _ children =>
    Kind.ofGrammar kind named = .blockComment → children = []

instance (tree : ParseTree) : Decidable tree.LeafComments := decidableAll tree

/-- Every node starts and ends between characters of the text. -/
def OnCharacters (text : String) (tree : ParseTree) : Prop :=
  tree.All fun _ _ span _ => Text.Boundary text span.start ∧ Text.Boundary text span.stop

instance (text : String) (tree : ParseTree) : Decidable (tree.OnCharacters text) := decidableAll tree

/-- The nodes of a list of numbered trees hang below the node before them or below one another. -/
def Hung (first : Nat) (nodes : List Node) : Prop :=
  ∀ i n, nodes[i]? = some n → ∀ j m, nodes[j]? = some m →
    m.children.count (first + i) = if n.parent = some (first + j) then 1 else 0

theorem parent_nodes {parent : Option Nat} {id : Nat} {tree : ParseTree} {n : Node}
    (found : (tree.nodes parent id)[0]? = some n) : n.parent = parent := by
  cases tree
  simp only [nodes, List.getElem?_cons_zero, Option.some.injEq] at found
  rw [← found]

mutual

theorem parent_nodes_succ (parent : Option Nat) (id : Nat) :
    (tree : ParseTree) → ∀ (i : Nat) (n : Node), (tree.nodes parent id)[i + 1]? = some n →
      ∃ q, n.parent = some q ∧ id ≤ q
  | .node _ _ _ _ children => by
    intro i n found
    simp only [nodes, List.getElem?_cons_succ] at found
    obtain ⟨q, above, place⟩ := parent_nodesAll id (id + 1) children i n found
    exact ⟨q, above, by omega⟩

theorem parent_nodesAll (parent next : Nat) :
    (trees : List ParseTree) → ∀ (i : Nat) (n : Node),
      (nodesAll parent next trees)[i]? = some n →
      ∃ q, n.parent = some q ∧ (q = parent ∨ next ≤ q)
  | [] => by simp [nodesAll]
  | tree :: rest => by
    intro i n found
    simp only [nodesAll, List.getElem?_append, length_nodes] at found
    split at found
    · cases i with
      | zero => exact ⟨parent, parent_nodes found, .inl rfl⟩
      | succ i =>
        obtain ⟨q, above, place⟩ := parent_nodes_succ (some parent) next tree i n found
        exact ⟨q, above, .inr place⟩
    · obtain ⟨q, above, place⟩ := parent_nodesAll parent (next + tree.size) rest _ n found
      exact ⟨q, above, by omega⟩

end

theorem count_numbers (parent next : Nat) (before : parent < next) (trees : List ParseTree) :
    ∀ i n, (nodesAll parent next trees)[i]? = some n →
      (numbers next trees).count (next + i) = if n.parent = some parent then 1 else 0 := by
  induction trees generalizing next with
  | nil => simp [nodesAll]
  | cons tree rest ih =>
    intro i n found
    have unseen (c : Nat) (early : c < next + tree.size) :
        (numbers (next + tree.size) rest).count c = 0 := by
      apply List.count_eq_zero_of_not_mem
      intro member
      have := (lt_of_mem_numbers member).1
      omega
    simp only [nodesAll, List.getElem?_append, length_nodes] at found
    rw [numbers]
    split at found
    · rename_i first
      cases i with
      | zero =>
        rw [parent_nodes found, if_pos rfl, Nat.add_zero, List.count_cons_self,
          unseen next (by omega)]
      | succ i =>
        obtain ⟨q, above, place⟩ := parent_nodes_succ (some parent) next tree i n found
        have other : ¬ n.parent = some parent := by
          rw [above]
          intro equal
          have := Option.some.inj equal
          omega
        rw [if_neg other, List.count_cons_of_ne (by omega), unseen _ (by omega)]
    · rename_i later
      have place : next + i = next + tree.size + (i - tree.size) := by omega
      rw [List.count_cons_of_ne (by have := tree.size_pos; omega), place]
      exact ih (next + tree.size) (by omega) _ n found

mutual

theorem hung_nodes (parent : Option Nat) (id : Nat) (before : ∀ p, parent = some p → p < id) :
    (tree : ParseTree) → Hung id (tree.nodes parent id)
  | .node kind named span field children => by
    intro i n here j m there
    have linked := linked_nodes parent id before (.node kind named span field children)
    cases i with
    | zero =>
      have later := (linked j m there).1
      have unseen : m.children.count (id + 0) = 0 := by
        apply List.count_eq_zero_of_not_mem
        intro member
        have := (later _ member).1
        omega
      have other : ¬ n.parent = some (id + j) := by
        rw [parent_nodes here]
        intro equal
        have := before _ equal
        omega
      rw [unseen, if_neg other]
    | succ i =>
      simp only [nodes, List.getElem?_cons_succ] at here
      have place : id + (i + 1) = id + 1 + i := by omega
      rw [place]
      cases j with
      | zero =>
        simp only [nodes, List.getElem?_cons_zero, Option.some.injEq] at there
        subst there
        exact count_numbers id (id + 1) (by omega) children i n here
      | succ j =>
        simp only [nodes, List.getElem?_cons_succ] at there
        have spot : id + (j + 1) = id + 1 + j := by omega
        rw [spot]
        exact hung_nodesAll id (id + 1) (by omega) children i n here j m there

theorem hung_nodesAll (parent next : Nat) (before : parent < next) :
    (trees : List ParseTree) → Hung next (nodesAll parent next trees)
  | [] => by
    intro i n here
    simp [nodesAll] at here
  | tree :: rest => by
    have first := hung_nodes (some parent) next (by simpa using before) tree
    have later := hung_nodesAll parent (next + tree.size) (by omega) rest
    have firstLinked := linked_nodes (some parent) next (by simpa using before) tree
    have laterLinked := linked_nodesAll parent (next + tree.size) (by omega) rest
    intro i n here j m there
    simp only [nodesAll, List.getElem?_append, length_nodes] at here there
    split at here <;> split at there
    · exact first i n here j m there
    · have unseen : m.children.count (next + i) = 0 := by
        apply List.count_eq_zero_of_not_mem
        intro member
        have := ((laterLinked _ m there).1 _ member).1
        omega
      have other : ¬ n.parent = some (next + j) := by
        intro equal
        have := (firstLinked i n here).2 _ equal
        omega
      rw [unseen, if_neg other]
    · have unseen : m.children.count (next + i) = 0 := by
        apply List.count_eq_zero_of_not_mem
        intro member
        have := ((firstLinked j m there).1 _ member).2
        omega
      have other : ¬ n.parent = some (next + j) := by
        obtain ⟨q, above, place⟩ := parent_nodesAll parent (next + tree.size) rest _ n here
        rw [above]
        intro equal
        have := Option.some.inj equal
        omega
      rw [unseen, if_neg other]
    · have placeI : next + i = next + tree.size + (i - tree.size) := by omega
      have placeJ : next + j = next + tree.size + (j - tree.size) := by omega
      rw [placeI, placeJ]
      exact later _ n here _ m there

end

/-- What stands behind the node `n`, which has the number `id` among `nodes`. -/
structure From (P : String → Bool → Span → List ParseTree → Prop) (id : Nat) (n : Node)
    (behind : List Node) : Prop where
  made : ∃ kind named span field parent children,
    P kind named span children ∧
    n = { kind := Kind.ofGrammar kind named, span := span, field := field, parent := parent,
          children := numbers (id + 1) children } ∧
    nodesAll id (id + 1) children <+: behind

mutual

theorem from_nodes {P : String → Bool → Span → List ParseTree → Prop} (parent : Option Nat)
    (id : Nat) : (tree : ParseTree) → tree.All P → ∀ (i : Nat) (n : Node),
      (tree.nodes parent id)[i]? = some n → From P (id + i) n ((tree.nodes parent id).drop (i + 1))
  | .node kind named span field children => by
    intro all i n found
    rw [All] at all
    cases i with
    | zero =>
      simp only [nodes, List.getElem?_cons_zero, Option.some.injEq] at found
      exact ⟨kind, named, span, field, parent, children, all.1, found.symm, by simp [nodes]⟩
    | succ i =>
      simp only [nodes, List.getElem?_cons_succ] at found
      have place : id + (i + 1) = id + 1 + i := by omega
      rw [place, nodes, List.drop_succ_cons]
      exact from_nodesAll id (id + 1) children all.2 i n found

theorem from_nodesAll {P : String → Bool → Span → List ParseTree → Prop} (parent next : Nat) :
    (trees : List ParseTree) → AllIn P trees → ∀ (i : Nat) (n : Node),
      (nodesAll parent next trees)[i]? = some n →
        From P (next + i) n ((nodesAll parent next trees).drop (i + 1))
  | [] => by simp [nodesAll]
  | tree :: rest => by
    intro all i n found
    rw [AllIn] at all
    rw [nodesAll]
    simp only [nodesAll, List.getElem?_append, length_nodes] at found
    split at found
    · rename_i first
      obtain ⟨kind, named, span, field, up, children, holds, made, ahead⟩ :=
        from_nodes (some parent) next tree all.1 i n found
      refine ⟨kind, named, span, field, up, children, holds, made, ?_⟩
      rw [List.drop_append_of_le_length (by rw [length_nodes]; omega)]
      exact ahead.trans (List.prefix_append _ _)
    · rename_i later
      have place : next + i = next + tree.size + (i - tree.size) := by omega
      have rests : i + 1 - tree.size = i - tree.size + 1 := by omega
      rw [place, List.drop_append, length_nodes,
        List.drop_eq_nil_of_le (by rw [length_nodes]; omega), List.nil_append, rests]
      exact from_nodesAll parent (next + tree.size) rest all.2 _ n found

end

theorem map_numbers {look : Nat → Kind × Span × Option String} (parent next : Nat)
    (trees : List ParseTree)
    (known : ∀ (i : Nat) (n : Node), (nodesAll parent next trees)[i]? = some n →
      look (next + i) = n.face) :
    (numbers next trees).map look = trees.map face := by
  induction trees generalizing next with
  | nil => rfl
  | cons tree rest ih =>
    have here : look next = tree.face := by
      cases tree with
      | node kind named span field children =>
        exact known 0
          { kind := Kind.ofGrammar kind named, span := span, field := field, parent := some parent,
            children := numbers (next + 1) children }
          (by simp only [nodesAll, nodes, List.cons_append, List.getElem?_cons_zero])
    have later := ih (next + tree.size) (by
      intro i n found
      rw [Nat.add_assoc]
      apply known (tree.size + i) n
      rw [nodesAll, List.getElem?_append_right (by rw [length_nodes]; omega), length_nodes,
        Nat.add_sub_cancel_left]
      exact found)
    rw [numbers, List.map_cons, List.map_cons, here, later]

theorem size_toTree (tree : ParseTree) (text : String) : (tree.toTree text).size = tree.size := by
  simp [toTree, Tree.size, length_nodes]

theorem node_toTree (tree : ParseTree) (text : String) {id : Nat} (inside : id < tree.size) :
    (tree.nodes none 0)[id]? = some ((tree.toTree text).node id) := by
  have bound : id < (tree.nodes none 0).length := by
    rw [length_nodes]
    exact inside
  unfold Tree.node toTree
  rw [List.getElem?_toArray, List.getElem?_eq_getElem bound, Option.getD_some]

theorem attached_toTree (tree : ParseTree) (text : String) : (tree.toTree text).Attached := by
  have size := tree.size_toTree text
  have found {id : Nat} (inside : id < tree.size) := node_toTree tree text inside
  refine ⟨by rw [size]; exact tree.size_pos, parent_nodes (found tree.size_pos), ?_, ?_⟩
  · intro id inside other
    rw [size] at inside
    obtain ⟨i, rfl⟩ := Nat.exists_eq_succ_of_ne_zero other
    obtain ⟨q, above, -⟩ := parent_nodes_succ none 0 tree i _ (found inside)
    have lower := Tree.parent_lt above
    exact ⟨q, by omega, above⟩
  · intro id inside p
    rw [size] at inside
    by_cases there : p < tree.size
    · have hung := hung_nodes none 0 (by simp) tree id _ (found inside) p _ (found there)
      simpa only [Nat.zero_add] using hung
    · have other : ¬ ((tree.toTree text).node id).parent = some p := by
        intro above
        have := Tree.parent_lt above
        omega
      rw [if_neg other, Tree.node_of_size_le (by omega)]
      rfl

theorem node_toTree_from {P : String → Bool → Span → List ParseTree → Prop} {tree : ParseTree}
    (all : tree.All P) (text : String) {id : Nat} (inside : id < tree.size) :
    ∃ kind named span field parent children,
      P kind named span children ∧
      (tree.toTree text).node id =
        { kind := Kind.ofGrammar kind named, span := span, field := field, parent := parent,
          children := numbers (id + 1) children } ∧
      (numbers (id + 1) children).map (fun c => ((tree.toTree text).node c).face) =
        children.map face := by
  obtain ⟨kind, named, span, field, parent, children, holds, made, tail, joined⟩ :=
    from_nodes none 0 tree all id _ (node_toTree tree text inside)
  rw [Nat.zero_add] at made joined
  refine ⟨kind, named, span, field, parent, children, holds, made, ?_⟩
  apply map_numbers id
  intro i n found
  have bound : i < (nodesAll id (id + 1) children).length := (List.getElem?_eq_some_iff.mp found).1
  have here : (tree.nodes none 0)[id + 1 + i]? = some n := by
    rw [← List.getElem?_drop, ← joined, List.getElem?_append_left bound]
    exact found
  have there : id + 1 + i < tree.size := by
    have := (List.getElem?_eq_some_iff.mp here).1
    rwa [length_nodes] at this
  rw [node_toTree tree text there] at here
  rw [Option.some.inj here]

/-- What holds of every node that a grammar gives holds of every node of the tree. -/
theorem node_toTree_cases {P : Node → Prop} (tree : ParseTree) (text : String) (absent : P Node.absent)
    (given : ∀ id, id < tree.size → P ((tree.toTree text).node id)) (id : Nat) :
    P ((tree.toTree text).node id) := by
  by_cases inside : id < tree.size
  · exact given id inside
  · rw [Tree.node_of_size_le (by rw [size_toTree]; omega)]
    exact absent

mutual

theorem all_true : (tree : ParseTree) → tree.All fun _ _ _ _ => True
  | .node _ _ _ _ children => by
    rw [All]
    exact ⟨trivial, allIn_true children⟩

theorem allIn_true : (trees : List ParseTree) → AllIn (fun _ _ _ _ => True) trees
  | [] => by rw [AllIn]; trivial
  | tree :: rest => by
    rw [AllIn]
    exact ⟨all_true tree, allIn_true rest⟩

end

theorem untouched_toTree (tree : ParseTree) (text : String) : (tree.toTree text).Untouched := by
  intro id
  refine node_toTree_cases (P := fun n => n.removed = false ∧ n.dirty = false ∧
    n.parenthesized = false ∧ n.origin = .parsed) tree text ⟨rfl, rfl, rfl, rfl⟩ ?_ id
  intro id inside
  obtain ⟨kind, named, span, field, up, children, -, made, -⟩ :=
    node_toTree_from tree.all_true text inside
  rw [made]
  exact ⟨rfl, rfl, rfl, rfl⟩

theorem childless_toTree (p : Kind → Prop) {tree : ParseTree}
    (leaves : tree.All fun kind named _ children => p (Kind.ofGrammar kind named) → children = [])
    (text : String) (id : Nat) :
    p ((tree.toTree text).kind id) → ((tree.toTree text).node id).children = [] := by
  by_cases inside : id < tree.size
  · obtain ⟨kind, named, span, field, up, children, leaf, made, -⟩ :=
      node_toTree_from leaves text inside
    unfold Tree.kind
    rw [made]
    intro holds
    rw [leaf holds]
    rfl
  · intro _
    rw [Tree.node_of_size_le (by rw [size_toTree]; omega)]
    rfl

theorem leaf_toTree {tree : ParseTree} (leaves : tree.LeafComments) (text : String) (id : Nat) :
    (tree.toTree text).kind id = .blockComment → ((tree.toTree text).node id).children = [] :=
  childless_toTree (· = .blockComment) leaves text id

theorem onCharacters_toTree {tree : ParseTree} {text : String} (characters : tree.OnCharacters text) :
    (tree.toTree text).OnCharacters := by
  intro id
  refine node_toTree_cases (P := fun n => Text.Boundary text n.span.start ∧
    Text.Boundary text n.span.stop) tree text ?_ ?_ id
  · exact ⟨⟨[], _, rfl, rfl⟩, ⟨[], _, rfl, rfl⟩⟩
  · intro id inside
    obtain ⟨kind, named, span, field, up, children, ends, made, -⟩ :=
      node_toTree_from characters text inside
    rw [made]
    exact ends

theorem spaced_toTree {tree : ParseTree} (nested : tree.Nested) (text : String) :
    (tree.toTree text).Spaced := by
  intro id
  by_cases inside : id < tree.size
  · obtain ⟨kind, named, span, field, up, children, row, made, faces⟩ :=
      node_toTree_from nested text inside
    have places : (numbers (id + 1) children).map (tree.toTree text).span =
        children.map ParseTree.span := by
      have same : (fun face => face.2.1) ∘ face = ParseTree.span :=
        funext fun tree => by cases tree; rfl
      have taken := congrArg (List.map fun face => face.2.1) faces
      rw [List.map_map, List.map_map, same] at taken
      exact taken
    have here : (tree.toTree text).span id = span := by
      unfold Tree.span
      rw [made]
    rw [here, made, places]
    exact row
  · have outside : (tree.toTree text).size ≤ id := by
      rw [size_toTree]
      omega
    unfold Tree.span
    rw [Tree.node_of_size_le outside]
    exact Nat.le_refl 0

end ParseTree

end SpringLint
