import Mathlib.Data.List.Nodup
import SpringLint.Proofs.Check.Members
import SpringLint.Syntax.Walk

/-! Walks as recursions over the tree, and the nodes that they pass. -/

namespace SpringLint.Tree

variable {t : Tree} {σ : Type} {visitor : Visitor σ}

/-- Visits a node, then what is below it, child after child, and leaves it. -/
def traverse (t : Tree) (visitor : Visitor σ) (id : Nat) (state : σ) : σ :=
  let (goesIn, state) := visitor.visit id state
  if goesIn then
    visitor.leave id ((t.children id).attach.foldl (fun state c => t.traverse visitor c.1 state) state)
  else state
termination_by t.size - id
decreasing_by exact child_decreases (mem_node_of_mem_children c.2)

theorem traverse_eq (t : Tree) (visitor : Visitor σ) (id : Nat) (state : σ) :
    t.traverse visitor id state =
      if (visitor.visit id state).1 then
        visitor.leave id ((t.children id).foldl (fun state c => t.traverse visitor c state)
          (visitor.visit id state).2)
      else (visitor.visit id state).2 := by
  rw [traverse]
  dsimp only
  have plain := List.foldl_subtype (l := (t.children id).attach) (x := (visitor.visit id state).2)
    (f := fun state c => t.traverse visitor c.1 state)
    (g := fun state c => t.traverse visitor c state) fun _ _ _ => rfl
  rw [plain, List.unattach_attach]

theorem runSteps_enter (visitor : Visitor σ) (id : Nat) (rest : List Step) (state : σ) :
    t.runSteps visitor (.enter id :: rest) state =
      t.runSteps visitor rest (t.traverse visitor id state) := by
  induction later : t.size - id using Nat.strongRecOn generalizing id rest state with
  | ind _ ih =>
    have below : ∀ ids : List Nat, (∀ c ∈ ids, c ∈ t.children id) → ∀ state,
        t.runSteps visitor (ids.map .enter ++ .leave id :: rest) state =
          t.runSteps visitor (.leave id :: rest)
            (ids.foldl (fun state c => t.traverse visitor c state) state) := by
      intro ids
      induction ids with
      | nil => exact fun _ _ => rfl
      | cons c ids next =>
        intro members state
        obtain ⟨child, others⟩ := List.forall_mem_cons.mp members
        have fewer := child_decreases (mem_node_of_mem_children child)
        rw [List.map_cons, List.cons_append, ih _ (by omega) c _ _ rfl, next others, List.foldl_cons]
    rw [runSteps, traverse_eq]
    dsimp only
    split
    · rw [below _ (fun _ member => member), runSteps]
    · rfl

theorem walk_eq (t : Tree) (visitor : Visitor σ) (id : Nat) (state : σ) :
    t.walk visitor id state = t.traverse visitor id state := by
  rw [walk, runSteps_enter, runSteps]

theorem ancestor_of_mem_descendants (attached : t.Attached) {id x : Nat}
    (below : x ∈ t.descendants id) : id ∈ x :: t.ancestors x := by
  induction later : t.size - id using Nat.strongRecOn generalizing id with
  | ind _ ih =>
    rw [descendants_eq] at below
    rcases List.mem_cons.mp below with rfl | inner
    · exact List.mem_cons_self
    · obtain ⟨c, child, inner⟩ := List.mem_flatMap.mp inner
      have member := mem_node_of_mem_children child
      have above : id ∈ c :: t.ancestors c := by
        rw [ancestors_of_parent (attached.parent_of_mem member)]
        exact List.mem_cons_of_mem _ List.mem_cons_self
      exact mem_ancestors_trans (ih _ (by have := child_decreases member; omega) inner rfl) above

theorem le_of_mem_descendants (attached : t.Attached) {id x : Nat} (below : x ∈ t.descendants id) :
    id ≤ x :=
  le_of_mem_ancestors (ancestor_of_mem_descendants attached below)

theorem disjoint_descendants (attached : t.Attached) {id a b x : Nat} (first : a ∈ t.children id)
    (second : b ∈ t.children id) (left : x ∈ t.descendants a) (right : x ∈ t.descendants b) :
    a = b :=
  eq_of_siblings (ancestor_of_mem_descendants attached left)
    (ancestor_of_mem_descendants attached right)
    (attached.parent_of_mem (mem_node_of_mem_children first))
    (attached.parent_of_mem (mem_node_of_mem_children second))

theorem mem_descendants_self (t : Tree) (id : Nat) : id ∈ t.descendants id := by
  rw [descendants_eq]
  exact List.mem_cons_self

theorem mem_descendants_of_child {id c x : Nat} (child : c ∈ t.children id)
    (below : x ∈ t.descendants c) : x ∈ t.descendants id := by
  rw [descendants_eq]
  exact List.mem_cons_of_mem _ (List.mem_flatMap.mpr ⟨c, child, below⟩)

theorem of_mem_descendants (attached : t.Attached) {id x : Nat} (below : x ∈ t.descendants id) :
    x = id ∨ (t.node x).removed = false ∧
      ∃ p, (t.node x).parent = some p ∧ p ∈ t.descendants id := by
  induction id using down_induction (t := t) with
  | step id ih =>
    rw [descendants_eq] at below
    rcases List.mem_cons.mp below with same | inner
    · exact .inl same
    · obtain ⟨c, child, inner⟩ := List.mem_flatMap.mp inner
      have member := mem_node_of_mem_children child
      right
      rcases ih c member inner with rfl | ⟨stays, p, above, path⟩
      · have stays := (List.mem_filter.mp child).2
        rw [Bool.not_eq_true'] at stays
        exact ⟨stays, id, attached.parent_of_mem member, mem_descendants_self t id⟩
      · exact ⟨stays, p, above, mem_descendants_of_child child path⟩

theorem mem_descendants_trans {id p x : Nat} (above : p ∈ t.descendants id)
    (below : x ∈ t.descendants p) : x ∈ t.descendants id := by
  induction later : t.size - id using Nat.strongRecOn generalizing id with
  | ind _ ih =>
    rw [descendants_eq] at above
    rcases List.mem_cons.mp above with rfl | inner
    · exact below
    · obtain ⟨c, child, inner⟩ := List.mem_flatMap.mp inner
      have fewer := child_decreases (mem_node_of_mem_children child)
      exact mem_descendants_of_child child (ih _ (by omega) inner rfl)

theorem lt_of_mem_descendants {id x : Nat} (inside : id < t.size) (below : x ∈ t.descendants id) :
    x < t.size := by
  induction id using down_induction (t := t) with
  | step id ih =>
    rw [descendants_eq] at below
    rcases List.mem_cons.mp below with rfl | inner
    · exact inside
    · obtain ⟨c, child, inner⟩ := List.mem_flatMap.mp inner
      have member := mem_node_of_mem_children child
      exact ih c member (lt_of_mem_node_children member).2 inner

/-- A walk passes no node twice. -/
theorem nodup_descendants (attached : t.Attached) (id : Nat) : (t.descendants id).Nodup := by
  induction id using down_induction (t := t) with
  | step id ih =>
    rw [descendants_eq, List.nodup_cons, List.nodup_flatMap]
    refine ⟨?_, fun c child => ih c (mem_node_of_mem_children child), ?_⟩
    · intro inner
      obtain ⟨c, child, below⟩ := List.mem_flatMap.mp inner
      have later := (lt_of_mem_node_children (mem_node_of_mem_children child)).1
      have := le_of_mem_descendants attached below
      omega
    · have distinct : (t.children id).Nodup := (attached.nodup_children id).filter _
      refine distinct.imp_of_mem fun first second different x left right => different ?_
      exact disjoint_descendants attached first second left right

theorem mem_descendants_of_mem_ancestors (attached : t.Attached) (untouched : t.Untouched) {id x : Nat}
    (inside : x < t.size) (above : id ∈ x :: t.ancestors x) : x ∈ t.descendants id := by
  induction x using Nat.strongRecOn with
  | ind x ih =>
    rcases List.mem_cons.mp above with rfl | higher
    · exact mem_descendants_self t id
    · have deep : x ≠ root := by
        rintro rfl
        rw [ancestors_of_root attached.root_parent] at higher
        cases higher
      obtain ⟨p, within, parent⟩ := attached.parent_inside x inside deep
      rw [ancestors_of_parent parent] at higher
      have child : x ∈ t.children p := by
        rw [children_of_untouched untouched]
        exact attached.mem_of_parent inside parent
      exact mem_descendants_trans (ih p (parent_lt parent) within higher)
        (mem_descendants_of_child child (mem_descendants_self t x))

theorem mem_descendants_root (attached : t.Attached) (untouched : t.Untouched) {x : Nat}
    (inside : x < t.size) : x ∈ t.descendants root := by
  apply mem_descendants_of_mem_ancestors attached untouched inside
  by_cases top : x = root
  · simp [top]
  · simp [root_mem_ancestors attached inside top]

theorem descendants_root_perm (attached : t.Attached) (untouched : t.Untouched) :
    (t.descendants root).Perm (List.range t.size) := by
  rw [List.perm_ext_iff_of_nodup (nodup_descendants attached root) List.nodup_range]
  intro x
  rw [List.mem_range]
  exact ⟨lt_of_mem_descendants attached.nonempty, mem_descendants_root attached untouched⟩

end SpringLint.Tree
