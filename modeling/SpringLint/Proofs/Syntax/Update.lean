import SpringLint.Syntax.Edit

/-! How the changes of a tree act on its nodes, node by node. -/

namespace SpringLint.Tree

theorem node_of_size_le {t : Tree} {id : Nat} (outside : t.size ≤ id) :
    t.node id = Node.absent := by
  unfold node
  rw [Array.getElem?_eq_none outside, Option.getD_none]

theorem lt_size_of_kind {t : Tree} {id : Nat} (known : t.kind id ≠ .other "") : id < t.size := by
  refine Nat.lt_of_not_le fun outside => known ?_
  rw [kind, node_of_size_le outside]
  rfl

section Modify

variable (t : Tree) (id : Nat) (f : Node → Node)
  (keeps : ∀ n, (f n).children = n.children ∧ (f n).parent = n.parent)

@[simp]
theorem size_modify : (t.modify id f keeps).size = t.size :=
  Array.size_modify

theorem node_modify (inside : id < t.size) (other : Nat) :
    (t.modify id f keeps).node other = if other = id then f (t.node id) else t.node other := by
  unfold node modify
  rw [Array.getElem?_modify]
  by_cases same : id = other
  · subst same
    rw [if_pos rfl, if_pos rfl, Array.getElem?_eq_getElem inside]
    rfl
  · rw [if_neg same, if_neg (Ne.symm same)]

end Modify

section AddChild

variable (t : Tree) (parent index : Nat) (added : Node)

@[simp]
theorem source_addChild : (t.addChild parent index added).source = t.source := by
  unfold addChild
  split <;> rfl

theorem nodes_addChild (inside : parent < t.size) :
    (t.addChild parent index added).nodes =
      (t.nodes.push { added with parent := some parent, children := [] }).modify parent
        fun n => { n with children := n.children.insertIdx index t.size } := by
  have stands : parent < t.nodes.size := inside
  unfold addChild
  rw [dif_pos stands]
  rfl

theorem size_addChild (inside : parent < t.size) :
    (t.addChild parent index added).size = t.size + 1 := by
  have grown := congrArg Array.size (nodes_addChild t parent index added inside)
  rwa [Array.size_modify, Array.size_push] at grown

theorem node_addChild (inside : parent < t.size) (other : Nat) :
    (t.addChild parent index added).node other =
      if other = t.size then { added with parent := some parent, children := [] }
      else if other = parent then
        { t.node parent with children := (t.node parent).children.insertIdx index t.size }
      else t.node other := by
  have before : parent ≠ t.size := Nat.ne_of_lt inside
  unfold node
  rw [nodes_addChild t parent index added inside, Array.getElem?_modify]
  by_cases last : other = t.size
  · subst last
    have fresh : (t.nodes.push { added with parent := some parent, children := [] })[t.size]? =
        some { added with parent := some parent, children := [] } := Array.getElem?_push_size
    rw [if_neg before, if_pos rfl, fresh]
    rfl
  · have old : (t.nodes.push { added with parent := some parent, children := [] })[other]? =
        t.nodes[other]? := by
      rw [Array.getElem?_push]
      exact if_neg last
    rw [if_neg last, old]
    by_cases target : parent = other
    · subst target
      have found : t.nodes[parent]? = some (t.nodes.getD parent Node.absent) := by
        rw [Array.getD_eq_getD_getElem?, Array.getElem?_eq_getElem inside]
        rfl
      rw [if_pos rfl, if_pos rfl, found]
      rfl
    · rw [if_neg target, if_neg (Ne.symm target)]

end AddChild

theorem removed_keeps_place (n : Node) :
    { n with removed := true }.children = n.children ∧
      { n with removed := true }.parent = n.parent :=
  ⟨rfl, rfl⟩

/-- The tree with a node removed, before any mark is set. -/
def strike (t : Tree) (id : Nat) : Tree :=
  t.modify id (fun n => { n with removed := true }) removed_keeps_place

theorem node_strike (t : Tree) {id : Nat} (inside : id < t.size) (other : Nat) :
    (t.strike id).node other =
      { t.node other with removed := (t.node other).removed || other == id } := by
  unfold strike
  rw [node_modify t id _ _ inside]
  by_cases same : other = id
  · subst same
    rw [if_pos rfl, beq_self_eq_true, Bool.or_true]
  · rw [if_neg same, beq_eq_false_iff_ne.mpr same, Bool.or_false]

theorem parenthesized_keeps_place (n : Node) :
    { n with parenthesized := true }.children = n.children ∧
      { n with parenthesized := true }.parent = n.parent :=
  ⟨rfl, rfl⟩

def wrap (t : Tree) (id : Nat) : Tree :=
  t.modify id (fun n => { n with parenthesized := true }) parenthesized_keeps_place

theorem node_wrap (t : Tree) {id : Nat} (inside : id < t.size) (other : Nat) :
    (t.wrap id).node other =
      { t.node other with parenthesized := (t.node other).parenthesized || other == id } := by
  unfold wrap
  rw [node_modify t id _ _ inside]
  by_cases same : other = id
  · subst same
    rw [if_pos rfl, beq_self_eq_true, Bool.or_true]
  · rw [if_neg same, beq_eq_false_iff_ne.mpr same, Bool.or_false]

/-- Two trees of one source that differ at most in which nodes are marked. -/
structure SameButMarks (t u : Tree) : Prop where
  source : u.source = t.source
  size : u.size = t.size
  node : ∀ id, u.node id = { t.node id with dirty := (u.node id).dirty }
  grows : ∀ id, (t.node id).dirty = true → (u.node id).dirty = true

namespace SameButMarks

theorem refl (t : Tree) : t.SameButMarks t :=
  ⟨rfl, rfl, fun _ => rfl, fun _ marked => marked⟩

theorem trans {t u v : Tree} (first : t.SameButMarks u) (second : u.SameButMarks v) :
    t.SameButMarks v where
  source := second.source.trans first.source
  size := second.size.trans first.size
  node id := by rw [second.node id, first.node id]
  grows id marked := second.grows id (first.grows id marked)

end SameButMarks

theorem dirty_keeps_place (n : Node) :
    { n with dirty := true }.children = n.children ∧ { n with dirty := true }.parent = n.parent :=
  ⟨rfl, rfl⟩

def mark (t : Tree) (id : Nat) : Tree :=
  t.modify id (fun n => { n with dirty := true }) dirty_keeps_place

theorem node_mark (t : Tree) {id : Nat} (inside : id < t.size) (other : Nat) :
    (t.mark id).node other =
      if other = id then { t.node id with dirty := true } else t.node other :=
  node_modify t id _ _ inside other

theorem dirty_mark_iff (t : Tree) {id : Nat} (inside : id < t.size) (other : Nat) :
    ((t.mark id).node other).dirty = true ↔ other = id ∨ (t.node other).dirty = true := by
  rw [node_mark t inside]
  by_cases same : other = id
  · simp [same]
  · simp [same]

theorem sameButMarks_mark (t : Tree) {id : Nat} (inside : id < t.size) :
    t.SameButMarks (t.mark id) where
  source := rfl
  size := size_modify ..
  node other := by
    rw [node_mark t inside]
    split
    · rename_i same
      rw [same]
    · rfl
  grows other marked := (dirty_mark_iff t inside other).mpr (.inr marked)

theorem markDirty_of_dirty {t : Tree} {id : Nat} (marked : (t.node id).dirty = true) :
    t.markDirty id = t := by
  rw [markDirty, if_pos marked]

theorem markDirty_of_parent {t : Tree} {id p : Nat} (clean : ¬(t.node id).dirty = true)
    (above : (t.node id).parent = some p) : t.markDirty id = (t.mark id).markDirty p := by
  rw [markDirty, if_neg clean]
  simp only
  split
  · rename_i q other
    rw [above] at other
    rw [Option.some.inj other]
    rfl
  · rename_i none
    rw [above] at none
    cases none

theorem markDirty_of_root {t : Tree} {id : Nat} (clean : ¬(t.node id).dirty = true)
    (above : (t.node id).parent = none) : t.markDirty id = t.mark id := by
  rw [markDirty, if_neg clean]
  simp only
  split
  · rename_i p other
    rw [above] at other
    cases other
  · rfl

/-- Marking stops at the first marked node. It still marks everything above, provided that a mark
is missing nowhere but at the node it starts from. -/
theorem markDirty_spec (t : Tree) (id : Nat) (inside : id < t.size)
    (closed : ∀ child p, (t.node child).parent = some p → (t.node child).dirty = true →
      (t.node p).dirty = true ∨ p = id) :
    t.SameButMarks (t.markDirty id) ∧
      ((t.markDirty id).node id).dirty = true ∧
      ∀ child p, (t.node child).parent = some p → ((t.markDirty id).node child).dirty = true →
        ((t.markDirty id).node p).dirty = true := by
  induction id using Nat.strongRecOn generalizing t with
  | ind id ih =>
    by_cases marked : (t.node id).dirty = true
    · rw [markDirty_of_dirty marked]
      refine ⟨.refl t, marked, fun child p above dirt => ?_⟩
      rcases closed child p above dirt with done | rfl
      · exact done
      · exact marked
    · have same := sameButMarks_mark t inside
      have parents (child : Nat) : ((t.mark id).node child).parent = (t.node child).parent := by
        rw [same.node child]
      cases above : (t.node id).parent with
      | none =>
        rw [markDirty_of_root marked above]
        refine ⟨same, (dirty_mark_iff t inside id).mpr (.inl rfl), fun child p parentOf dirt => ?_⟩
        rw [dirty_mark_iff t inside] at dirt ⊢
        rcases dirt with rfl | earlier
        · rw [above] at parentOf
          cases parentOf
        · exact (closed child p parentOf earlier).symm
      | some p =>
        rw [markDirty_of_parent marked above]
        have lower : p < id := parent_lt above
        have stillClosed : ∀ child q, ((t.mark id).node child).parent = some q →
            ((t.mark id).node child).dirty = true →
              ((t.mark id).node q).dirty = true ∨ q = p := by
          intro child q parentOf dirt
          rw [parents] at parentOf
          rw [dirty_mark_iff t inside] at dirt ⊢
          rcases dirt with rfl | earlier
          · rw [above] at parentOf
            exact .inr (Option.some.inj parentOf).symm
          · exact .inl (closed child q parentOf earlier).symm
        obtain ⟨rest, -, up⟩ := ih p lower (t.mark id) (by rw [same.size]; omega) stillClosed
        refine ⟨same.trans rest, ?_, fun child q parentOf dirt => ?_⟩
        · exact rest.grows id ((dirty_mark_iff t inside id).mpr (.inl rfl))
        · exact up child q (by rw [parents, parentOf]) dirt

end SpringLint.Tree
